import Groupnet.Hosted.Stream

/-!
# A hosted reader over whole runs

A reader is a `Lineage` and the log of what its driver saw: the events popped, the cuts,
the pairs adopted and the epochs opened.  What was popped and what is still queued is a
stream at all times, up to the cursor of the lineage or, once that is cut, below the cut.
The order and the coverage of the popped events are those of a stream.
-/

namespace Groupnet

variable {K : Type}

/-- The position of a peer's event is at most `bound`. -/
def PeerWrite.Within (bound : Nat) : PeerWrite K → Prop
  | .wrote _ token _ => token.seq ≤ bound
  | .gap _ missedThrough => missedThrough.seq ≤ bound
  | .sealed .. | .renewed .. => True

theorem PeerWrite.Within.mono {bound bound' : Nat} {event : PeerWrite K} (h : event.Within bound)
    (hle : bound ≤ bound') : event.Within bound' := by
  cases event with
  | wrote | gap => exact Nat.le_trans h hle
  | sealed | renewed => trivial

namespace Lineage

variable {l l' : Lineage K} {o o' : Opened} {out : List (HostedRead K)}

/-! ## One event -/

variable {peer : NodeId} {token : WriteToken} {event : PeerWrite K}

/-- Events are queued, and the watch and the cut stay. -/
structure Queues (l : Lineage K) (out : List (HostedRead K)) (l' : Lineage K) : Prop where
  pending : l'.pending = l.pending ++ out
  adoptedEpoch : l'.adoptedEpoch = l.adoptedEpoch
  adoptedHost : l'.adoptedHost = l.adoptedHost
  floor : l'.floor = l.floor

/-- What taking an event does to the stream: nothing, one more of the open epoch, or the
opening of the adopted one. -/
inductive Takes (l : Lineage K) : List (HostedRead K) → Lineage K → Prop
  | quiet {l' : Lineage K} (ho : l'.opened = l.opened) : Takes l [] l'
  | continued {out : List (HostedRead K)} {l' : Lineage K} {o o' : Opened} (ho : l.opened = some o)
      (ho' : l'.opened = some o') (hepoch : o'.epoch = o.epoch) (hhost : o'.host = o.host)
      (hout : ∀ r ∈ out, r.epoch? = some o.epoch)
      (htold : ∀ opens, Told opens (some o) out (some o')) : Takes l out l'
  | opens {out : List (HostedRead K)} {l' : Lineage K} {o' : Opened}
      (hrise : Below o'.epoch l.opened) (hfloor : l.floor ≤ o'.epoch)
      (hepoch : o'.epoch = l.adoptedEpoch) (hhost : l.adoptedHost = some o'.host)
      (ho' : l'.opened = some o') (hout : ∀ r ∈ out, r.epoch? = some o'.epoch)
      (htold : ∀ opens x, (o'.epoch, o'.host) ∈ opens → Below o'.epoch x →
        Told opens x out (some o')) :
      Takes l out l'

/-- A write of the open epoch: a gap where it leaves a hole, and the write. -/
theorem deliver_wrote {peer : NodeId} {token : WriteToken} {key : K} (ho : l.opened = some o)
    (hseq : o.next ≤ token.seq) :
    Queues l ((if o.next < token.seq then [.gap ⟨token.epoch, token.seq - 1⟩] else []) ++
        [.wrote peer token key]) (l.deliver (.wrote peer token key)) ∧
      (l.deliver (.wrote peer token key)).opened = some { o with next := satAdd token.seq 1 } := by
  unfold deliver
  rw [ho]
  simp only [Option.map_some, if_neg (Nat.not_lt.mpr hseq)]
  split
  · refine ⟨⟨?_, rfl, rfl, rfl⟩, ?_⟩
    · simp [push, pushGap, advance]
    · simp [push, pushGap, advance, ho]
  refine ⟨⟨?_, rfl, rfl, rfl⟩, ?_⟩
  · simp [push, advance]
  · simp [push, advance, ho]

theorem deliver_wrote_of_lt {key : K} (ho : l.opened = some o) (hseq : token.seq < o.next) :
    l.deliver (.wrote peer token key) = l := by
  unfold deliver
  rw [ho]
  simp [hseq]

/-- A stream goes on with a write of its host. -/
theorem told_wrote (opens : List (Nat × NodeId)) (key : K) (hepoch : token.epoch = o.epoch)
    (hseq : o.next ≤ token.seq) :
    Told opens (some o) ((if o.next < token.seq then [.gap ⟨token.epoch, token.seq - 1⟩] else []) ++
      [.wrote o.host token key]) (some { o with next := satAdd token.seq 1 }) := by
  obtain ⟨epoch, host, next⟩ := o
  obtain ⟨_, seq⟩ := token
  cases hepoch
  split
  next hlt =>
    refine .snoc (.single (.gap hseq ?_)) (.wrote key)
    omega
  next hlt =>
    cases Nat.le_antisymm hseq (Nat.not_lt.mp hlt)
    exact .single (.wrote key)

theorem takes_deliver_wrote {key : K} (ho : l.opened = some o) (hepoch : token.epoch = o.epoch) :
    ∃ out, Queues l out (l.deliver (.wrote o.host token key)) ∧
      Takes l out (l.deliver (.wrote o.host token key)) := by
  rcases Nat.lt_or_ge token.seq o.next with hlt | hge
  · rw [deliver_wrote_of_lt ho hlt]
    exact ⟨[], ⟨(List.append_nil _).symm, rfl, rfl, rfl⟩, .quiet rfl⟩
  obtain ⟨hqueues, ho'⟩ := @deliver_wrote K l o o.host token key ho hge
  refine ⟨_, hqueues, .continued ho ho' rfl rfl ?_ fun opens => told_wrote opens key hepoch hge⟩
  intro r hr
  rcases List.mem_append.mp hr with hr | hr
  · split at hr
    · cases List.mem_singleton.mp hr
      exact congrArg some hepoch
    · cases hr
  · cases List.mem_singleton.mp hr
    exact congrArg some hepoch

theorem takes_deliver_gap {m : WriteToken} (ho : l.opened = some o) (hepoch : m.epoch = o.epoch)
    (hfits : m.seq ≤ u64Max) :
    ∃ out, Queues l out (l.deliver (.gap peer m)) ∧ Takes l out (l.deliver (.gap peer m)) := by
  unfold deliver
  rw [ho]
  simp only [Option.map_some]
  split
  · exact ⟨[], ⟨(List.append_nil _).symm, rfl, rfl, rfl⟩, .quiet rfl⟩
  next hseq =>
    have hle : o.next ≤ m.seq := Nat.not_lt.mp hseq
    have ho' : ((l.pushGap m).advance (satAdd m.seq 1)).opened =
        some { o with next := satAdd m.seq 1 } := by
      simp [advance, pushGap, push, ho]
    refine ⟨[.gap m], ⟨rfl, rfl, rfl, rfl⟩, .continued ho ho' rfl rfl ?_ ?_⟩
    · intro r hr
      cases List.mem_singleton.mp hr
      exact congrArg some hepoch
    intro opens
    obtain ⟨epoch, host, next⟩ := o
    obtain ⟨_, seq⟩ := m
    cases hepoch
    exact .single (.gap (hle.trans (le_satAdd 1 hfits)) (satAdd_le_add ..))

/-- The adopted epoch opens with a gap and the write. -/
theorem openWith_wrote (l : Lineage K) (peer : NodeId) (token : WriteToken) (key : K) :
    Queues l [.gap ⟨token.epoch, token.seq - 1⟩, .wrote peer token key]
        (l.openWith peer token.epoch (.wrote peer token key)) ∧
      (l.openWith peer token.epoch (.wrote peer token key)).opened =
        some ⟨token.epoch, peer, satAdd token.seq 1⟩ := by
  have hopened : ({ l.pushGap ⟨token.epoch, token.seq - 1⟩ with
      opened := some ⟨token.epoch, peer, token.seq⟩ } : Lineage K).opened =
        some ⟨token.epoch, peer, token.seq⟩ := rfl
  obtain ⟨hqueues, ho'⟩ := @deliver_wrote K _ _ peer token key hopened (Nat.le_refl _)
  rw [if_neg (Nat.lt_irrefl _), List.nil_append] at hqueues
  refine ⟨⟨?_, hqueues.adoptedEpoch, hqueues.adoptedHost, hqueues.floor⟩, ho'⟩
  rw [show [.gap ⟨token.epoch, token.seq - 1⟩, .wrote peer token key] =
    [HostedRead.gap ⟨token.epoch, token.seq - 1⟩] ++ [.wrote peer token key] from rfl,
      ← List.append_assoc]
  exact hqueues.pending

theorem takes_openWith {epoch : Nat} (hrise : Below epoch l.opened) (hfloor : l.floor ≤ epoch)
    (hepoch : epoch = l.adoptedEpoch) (hhost : l.adoptedHost = some peer)
    (hevent : (∃ token key, event = .wrote peer token key ∧
      token.epoch = epoch) ∨ ∃ m, event = .gap peer m ∧ m.epoch = epoch) :
    ∃ out, Queues l out (l.openWith peer epoch event) ∧
      Takes l out (l.openWith peer epoch event) := by
  rcases hevent with ⟨token, key, rfl, rfl⟩ | ⟨m, rfl, rfl⟩
  · obtain ⟨hqueues, ho'⟩ := openWith_wrote l peer token key
    refine ⟨_, hqueues, .opens hrise hfloor hepoch hhost ho' ?_ ?_⟩
    · simp [HostedRead.epoch?]
    · intro opens x hin hx
      exact .snoc (.single (.opens hx hin)) (.wrote key)
  · have ho' : (l.openWith peer m.epoch (.gap peer m)).opened =
        some ⟨m.epoch, peer, satAdd m.seq 1⟩ := rfl
    refine ⟨[.gap ⟨m.epoch, satAdd m.seq 1 - 1⟩], ⟨rfl, rfl, rfl, rfl⟩,
      .opens hrise hfloor hepoch hhost ho' ?_ ?_⟩
    · simp [HostedRead.epoch?]
    · intro opens x hin hx
      exact .single (.opens hx hin)

theorem takes_judge {epoch : Nat} (hfits : event.Within u64Max)
    (hevent : (∃ token key, event = .wrote peer token key ∧ token.epoch = epoch) ∨
      ∃ m, event = .gap peer m ∧ m.epoch = epoch) :
    ∃ out, Queues l out (l.judge peer epoch event) ∧ Takes l out (l.judge peer epoch event) := by
  have hquiet : ∀ {l' : Lineage K}, l'.pending = l.pending → l'.adoptedEpoch = l.adoptedEpoch →
      l'.adoptedHost = l.adoptedHost → l'.floor = l.floor → l'.opened = l.opened →
        ∃ out, Queues l out l' ∧ Takes l out l' :=
    fun hp he hh hf ho => ⟨[], ⟨hp.trans (List.append_nil _).symm, he, hh, hf⟩, .quiet ho⟩
  unfold judge
  split
  · exact hquiet rfl rfl rfl rfl rfl
  next hfloor =>
    split
    · exact hquiet rfl rfl rfl rfl rfl
    next habove =>
      split
      next hat =>
        split
        next hpeer =>
          obtain ⟨o, ho, hepoch⟩ := (Option.any_eq_true _ _).mp hat
          obtain ⟨_, ho', hhost⟩ := (Option.any_eq_true _ _).mp hpeer
          cases ho.symm.trans ho'
          have hepoch : epoch = o.epoch := of_decide_eq_true hepoch
          have hhost : peer = o.host := of_decide_eq_true hhost
          rcases hevent with ⟨token, key, rfl, htoken⟩ | ⟨m, rfl, hm⟩
          · rw [hhost]
            exact takes_deliver_wrote ho (htoken.trans hepoch)
          · exact takes_deliver_gap ho (hm.trans hepoch) hfits
        next => exact hquiet rfl rfl rfl rfl rfl
      next hat =>
        split
        · exact hquiet rfl rfl rfl rfl rfl
        next hlow =>
          split
          · exact hquiet rfl rfl rfl rfl rfl
          next hhigh =>
            split
            next hhost =>
              refine takes_openWith ?_ (Nat.not_lt.mp hfloor)
                (Nat.le_antisymm (Nat.not_lt.mp hhigh) (Nat.not_lt.mp hlow)) hhost hevent
              intro o ho
              have habove : ¬ epoch < o.epoch := fun h =>
                habove ((Option.any_eq_true _ _).mpr ⟨o, ho, decide_eq_true h⟩)
              have hat : epoch ≠ o.epoch := fun h =>
                hat ((Option.any_eq_true _ _).mpr ⟨o, ho, decide_eq_true h⟩)
              omega
            next => exact hquiet rfl rfl rfl rfl rfl

theorem takes_admitEvent (l : Lineage K) (hfits : event.Within u64Max) :
    ∃ out, Queues l out (l.admitEvent event) ∧ Takes l out (l.admitEvent event) := by
  cases event with
  | wrote peer token key => exact takes_judge hfits (.inl ⟨token, key, rfl, rfl⟩)
  | gap peer m => exact takes_judge hfits (.inr ⟨m, rfl, rfl⟩)
  | sealed peer token => exact ⟨[], ⟨(List.append_nil _).symm, rfl, rfl, rfl⟩, .quiet rfl⟩
  | renewed peer token epoch =>
    have hgap : (PeerWrite.gap peer ⟨epoch, 0⟩ : PeerWrite K).Within u64Max := Nat.zero_le _
    exact takes_judge hgap (.inr ⟨_, rfl, rfl⟩)

/-- No position held or queued is above `bound`. -/
structure Modest (bound : Nat) (l : Lineage K) : Prop where
  held : ∀ event ∈ l.held, event.Within bound
  pending : ∀ r ∈ l.pending, ∀ t ∈ r.token?, t.seq ≤ bound

namespace Modest

variable {bound : Nat}

variable {event : PeerWrite K}

/-- A change to neither queue. -/
theorem congr (h : l.Modest bound) (hheld : l'.held = l.held) (hpending : l'.pending = l.pending) :
    l'.Modest bound :=
  ⟨hheld.symm ▸ h.held, hpending.symm ▸ h.pending⟩

theorem push (h : l.Modest bound) {r : HostedRead K} (hr : ∀ t ∈ r.token?, t.seq ≤ bound) :
    (l.push r).Modest bound := by
  refine ⟨h.held, fun r' hr' => ?_⟩
  rcases List.mem_append.mp hr' with hr' | hr'
  · exact h.pending r' hr'
  · cases List.mem_singleton.mp hr'
    exact hr

theorem pushGap (h : l.Modest bound) (m : WriteToken) : (l.pushGap m).Modest bound :=
  (h.push (r := .gap m) fun _ ht => nomatch ht).congr rfl rfl

theorem deliver (h : l.Modest bound) {event : PeerWrite K} (hevent : event.Within bound) :
    (l.deliver event).Modest bound := by
  unfold Lineage.deliver
  split
  · exact h
  cases event with
  | wrote peer token key =>
    dsimp only
    have hwrote : ∀ t ∈ (HostedRead.wrote peer token key).token?, t.seq ≤ bound := by
      intro t ht
      cases ht
      exact hevent
    split
    · exact h
    split
    · exact ((h.pushGap _).push hwrote).congr rfl rfl
    · exact (h.push hwrote).congr rfl rfl
  | gap peer m =>
    dsimp only
    split
    · exact h
    · exact (h.pushGap m).congr rfl rfl
  | sealed | renewed => exact h

theorem openWith (h : l.Modest bound) {epoch : Nat} (hevent : event.Within bound) :
    (l.openWith peer epoch event).Modest bound := by
  cases event with
  | wrote _ token key =>
    have hopen : ({ l.pushGap ⟨epoch, token.seq - 1⟩ with
        opened := some ⟨epoch, peer, token.seq⟩ } : Lineage K).Modest bound :=
      (h.pushGap _).congr rfl rfl
    exact hopen.deliver hevent
  | gap _ m => exact (h.pushGap _).congr rfl rfl
  | sealed | renewed => exact h

theorem hold (h : l.Modest bound) (hevent : event.Within bound) : (l.hold event).Modest bound := by
  refine ⟨fun event' hin => ?_, h.pending⟩
  rcases List.mem_append.mp hin with hin | hin
  · split at hin
    · exact h.held event' (List.mem_of_mem_drop hin)
    · exact h.held event' hin
  · cases List.mem_singleton.mp hin
    exact hevent

theorem judge (h : l.Modest bound) {epoch : Nat} (hevent : event.Within bound) :
    (l.judge peer epoch event).Modest bound := by
  unfold Lineage.judge
  split_ifs
  · exact h
  · exact h
  · exact h.deliver hevent
  · exact h
  · exact h
  · exact h.hold hevent
  · exact h.openWith hevent
  · exact h

theorem admitEvent (h : l.Modest bound) (hevent : event.Within bound) :
    (l.admitEvent event).Modest bound := by
  cases event with
  | wrote | gap => exact h.judge hevent
  | sealed => exact h
  | renewed => exact h.judge (Nat.zero_le bound)

theorem adopting (h : l.Modest bound) (epoch : Nat) (host : Option NodeId) :
    (l.adopting epoch host).Modest bound :=
  ⟨fun _ hin => (nomatch hin), (h.push (r := .migrated epoch host) fun _ ht => nomatch ht).pending⟩

theorem cut (h : l.Modest bound) (epoch : Nat) : (l.cut epoch).Modest bound := by
  unfold Lineage.cut
  split
  · exact h
  · exact ⟨fun event hin => h.held event (List.mem_filter.mp hin).1,
      fun r hr => h.pending r (List.mem_filter.mp hr).1⟩

end Modest

end Lineage

/-! ## Runs -/

/-- What the driver of a lineage saw. -/
inductive LineageNote (K : Type) where
  | popped (r : HostedRead K)
  | cut (epoch : Nat)
  /-- Another pair was adopted. -/
  | changed (epoch : Nat) (host : Option NodeId)
  | opened (epoch : Nat) (host : Option NodeId)

def LineageNote.popped? : LineageNote K → Option (HostedRead K)
  | .popped r => some r
  | .cut _ | .changed _ _ | .opened _ _ => none

def LineageNote.changed? : LineageNote K → Option (Nat × Option NodeId)
  | .changed epoch host => some (epoch, host)
  | .popped _ | .cut _ | .opened _ _ => none

def LineageNote.opened? : LineageNote K → Option (Nat × Option NodeId)
  | .opened epoch host => some (epoch, host)
  | .popped _ | .cut _ | .changed _ _ => none

/-- One call of the driver. -/
inductive LineageOp (K : Type) where
  | adopt (epoch : Nat) (host : Option NodeId)
  | admitEvent (event : PeerWrite K)
  | cut (epoch : Nat)
  | pop

/-- A lineage and its log, oldest first. -/
structure Reader (K : Type) where
  lineage : Lineage K
  log : List (LineageNote K)

namespace Reader

def new : Reader K := ⟨.new, []⟩

def newlyOpened (l l' : Lineage K) : List (LineageNote K) :=
  match l'.opened with
  | none => []
  | some o =>
    if l.opened.any fun o' => o'.epoch = o.epoch then [] else [.opened o.epoch l'.adoptedHost]

def admitEvent (s : Reader K) (event : PeerWrite K) : Reader K :=
  ⟨s.lineage.admitEvent event, s.log ++ newlyOpened s.lineage (s.lineage.admitEvent event)⟩

def adopting (s : Reader K) (epoch : Nat) (host : Option NodeId) : Reader K :=
  ⟨s.lineage.adopting epoch host, s.log ++ [.changed epoch host]⟩

def adopt (s : Reader K) (epoch : Nat) (host : Option NodeId) : Reader K :=
  if epoch = s.lineage.adoptedEpoch ∧ host = s.lineage.adoptedHost then s
  else s.lineage.held.foldl admitEvent (s.adopting epoch host)

def cut (s : Reader K) (epoch : Nat) : Reader K := ⟨s.lineage.cut epoch, s.log ++ [.cut epoch]⟩

def pop (s : Reader K) : Reader K :=
  ⟨s.lineage.pop.1, s.log ++ (s.lineage.pop.2.map LineageNote.popped).toList⟩

/-- One call, with what the driver sees. -/
def call (s : Reader K) : LineageOp K → Reader K
  | .adopt epoch host => s.adopt epoch host
  | .admitEvent event => s.admitEvent event
  | .cut epoch => s.cut epoch
  | .pop => s.pop

def run (ops : List (LineageOp K)) : Reader K := ops.foldl call new

theorem pop_of_nil {s : Reader K} (h : s.lineage.pending = []) : s.pop = s := by
  simp [pop, Lineage.pop, h]

theorem pop_of_cons {s : Reader K} {r : HostedRead K} {rest : List (HostedRead K)}
    (h : s.lineage.pending = r :: rest) :
    s.pop = ⟨{ s.lineage with pending := rest }, s.log ++ [.popped r]⟩ := by
  simp [pop, Lineage.pop, h]

def popped (s : Reader K) : List (HostedRead K) := s.log.filterMap LineageNote.popped?

def stream (s : Reader K) : List (HostedRead K) := s.popped ++ s.lineage.pending

/-- The epochs opened, with the hosts adopted then. -/
def opens (s : Reader K) : List (Nat × Option NodeId) := s.log.filterMap LineageNote.opened?

/-- What is popped after a cut is not below it. -/
def Fenced (log : List (LineageNote K)) : Prop :=
  ∀ before c after, log = before ++ .cut c :: after →
    ∀ r, .popped r ∈ after → ∀ e ∈ r.epoch?, c ≤ e

/-- What holds of a reader at all times. -/
structure Sound (s : Reader K) : Prop where
  /-- The stream leads to the cursor, or below the cut that closed it. -/
  told : ∃ hosts x, s.opens = hosts.map (fun p => (p.1, some p.2)) ∧ Told hosts none s.stream x ∧
    (x = s.lineage.opened ∨ s.lineage.opened = none ∧ Below s.lineage.floor x)
  /-- Epochs open in order. -/
  rising : s.opens.Pairwise (·.1 < ·.1)
  opens_le : ∀ p ∈ s.opens, (∃ o ∈ s.lineage.opened, p.1 ≤ o.epoch) ∨ p.1 < s.lineage.floor
  opened_floor : ∀ o ∈ s.lineage.opened, s.lineage.floor ≤ o.epoch
  pending_floor : ∀ r ∈ s.lineage.pending, ∀ e ∈ r.epoch?, s.lineage.floor ≤ e
  cuts : ∀ c, .cut c ∈ s.log → c ≤ s.lineage.floor
  fenced : Fenced s.log
  migrated : s.stream.filterMap HostedRead.pair? = s.log.filterMap LineageNote.changed?

theorem Fenced.snoc {log : List (LineageNote K)} {note : LineageNote K} (h : Fenced log)
    (hnote : ∀ r, note = .popped r → ∀ c, .cut c ∈ log → ∀ e ∈ r.epoch?, c ≤ e) :
    Fenced (log ++ [note]) := by
  intro before c after heq r hr
  rcases List.eq_nil_or_concat after with rfl | ⟨after', note', rfl⟩
  · cases hr
  rw [List.concat_eq_append] at heq hr
  have heq' : log ++ [note] = (before ++ .cut c :: after') ++ [note'] := by
    rw [heq]
    simp
  obtain ⟨rfl, hlast⟩ := List.append_inj' heq' rfl
  cases hlast
  rcases List.mem_append.mp hr with hr | hr
  · exact h before c after' rfl r hr
  · exact hnote r (List.mem_singleton.mp hr).symm c (by simp)

theorem sound_new : (new : Reader K).Sound where
  told := ⟨[], none, rfl, .nil, .inl rfl⟩
  rising := .nil
  opens_le p hp := nomatch hp
  opened_floor o ho := nomatch ho
  pending_floor r hr := nomatch hr
  cuts c hc := nomatch hc
  fenced before c after h := by simp [new] at h
  migrated := rfl

theorem newlyOpened_of_epoch {l l' : Lineage K}
    (h : l'.opened.map Opened.epoch = l.opened.map Opened.epoch) :
    newlyOpened l l' = [] := by
  unfold newlyOpened
  cases ho' : l'.opened with
  | none => rfl
  | some o' =>
    rw [ho', Option.map_some] at h
    obtain ⟨o, ho, hepoch⟩ := Option.map_eq_some_iff.mp h.symm
    simp [ho, hepoch]

theorem newlyOpened_of_below {l l' : Lineage K} {o' : Opened} (ho' : l'.opened = some o')
    (hrise : Below o'.epoch l.opened) : newlyOpened l l' = [.opened o'.epoch l'.adoptedHost] := by
  unfold newlyOpened
  rw [ho']
  refine if_neg fun h => ?_
  obtain ⟨o, ho, hepoch⟩ := (Option.any_eq_true _ _).mp h
  exact absurd (of_decide_eq_true hepoch) (hrise o ho).ne

namespace Sound

variable {s : Reader K}

/-- Events of one epoch are queued, and that epoch may be newly opened. -/
theorem extend (h : s.Sound) {l' : Lineage K} {out : List (HostedRead K)}
    {notes : List (LineageNote K)} (hosts : List (Nat × NodeId)) (epoch : Nat) (x' : Option Opened)
    (hqueues : Lineage.Queues s.lineage out l')
    (hout : ∀ r ∈ out, r.epoch? = some epoch) (hepoch : out ≠ [] → s.lineage.floor ≤ epoch)
    (hnotes : notes = [] ∨ ∃ e host, notes = [.opened e host])
    (hhosts : s.opens ++ notes.filterMap LineageNote.opened? = hosts.map fun p => (p.1, some p.2))
    (htold : Told hosts none (s.stream ++ out) x')
    (hx' : x' = l'.opened ∨ l'.opened = none ∧ Below l'.floor x')
    (hrising : (s.opens ++ notes.filterMap LineageNote.opened?).Pairwise (·.1 < ·.1))
    (hopens : ∀ p ∈ s.opens ++ notes.filterMap LineageNote.opened?,
      (∃ o ∈ l'.opened, p.1 ≤ o.epoch) ∨ p.1 < l'.floor)
    (hopened : ∀ o ∈ l'.opened, l'.floor ≤ o.epoch) : Sound ⟨l', s.log ++ notes⟩ := by
  have hstream : (⟨l', s.log ++ notes⟩ : Reader K).stream = s.stream ++ out := by
    have hpopped : notes.filterMap LineageNote.popped? = [] := by
      rcases hnotes with rfl | ⟨e, host, rfl⟩ <;> rfl
    simp [stream, popped, hqueues.pending, hpopped]
  have hlog : (⟨l', s.log ++ notes⟩ : Reader K).opens =
      s.opens ++ notes.filterMap LineageNote.opened? := by
    simp [opens]
  refine ⟨⟨hosts, x', hlog.trans hhosts, hstream.symm ▸ htold, hx'⟩, hlog.symm ▸ hrising,
    hlog.symm ▸ hopens, hopened, ?_, ?_, ?_, ?_⟩
  · intro r hr e he
    show l'.floor ≤ e
    rw [hqueues.floor]
    change r ∈ l'.pending at hr
    rw [hqueues.pending] at hr
    rcases List.mem_append.mp hr with hr | hr
    · exact h.pending_floor r hr e he
    · cases (hout r hr).symm.trans he
      exact hepoch (List.ne_nil_of_mem hr)
  · intro c hc
    show c ≤ l'.floor
    rw [hqueues.floor]
    refine h.cuts c ?_
    rcases hnotes with rfl | ⟨e, host, rfl⟩ <;> simpa using hc
  · rcases hnotes with rfl | ⟨e, host, rfl⟩
    · rw [List.append_nil]
      exact h.fenced
    · exact h.fenced.snoc fun r hr => nomatch hr
  · have hquiet : out.filterMap HostedRead.pair? = [] := by
      refine List.filterMap_eq_nil_iff.mpr fun r hr => ?_
      cases r with
      | migrated => cases hout _ hr
      | gap | wrote => rfl
    have hchanged : notes.filterMap LineageNote.changed? = [] := by
      rcases hnotes with rfl | ⟨e, host, rfl⟩ <;> rfl
    rw [hstream, List.filterMap_append, hquiet, List.append_nil, h.migrated, List.filterMap_append,
      hchanged, List.append_nil]

theorem admitEvent (h : s.Sound) {event : PeerWrite K} (hfits : event.Within u64Max) :
    (s.admitEvent event).Sound := by
  obtain ⟨out, hqueues, htakes⟩ := s.lineage.takes_admitEvent hfits
  obtain ⟨hosts, x, hhosts, htold, hx⟩ := h.told
  unfold Reader.admitEvent
  generalize s.lineage.admitEvent event = l' at hqueues htakes
  cases htakes with
  | quiet ho =>
    rw [newlyOpened_of_epoch (congrArg _ ho)]
    refine h.extend hosts 0 x hqueues (fun r hr => nomatch hr) (fun hne => absurd rfl hne)
      (.inl rfl) ?_ ?_ ?_ ?_ ?_ ?_
    · rwa [List.filterMap_nil, List.append_nil]
    · rwa [List.append_nil]
    · rwa [ho, hqueues.floor]
    · rw [List.filterMap_nil, List.append_nil]
      exact h.rising
    · rw [List.filterMap_nil, List.append_nil, ho, hqueues.floor]
      exact h.opens_le
    · rw [ho, hqueues.floor]
      exact h.opened_floor
  | @continued out _ o o' ho ho' hepoch hhost hout htold' =>
    have hxo : x = some o := by
      rcases hx with hx | ⟨hnone, _⟩
      · exact hx.trans ho
      · cases hnone.symm.trans ho
    have hfloor := h.opened_floor o ho
    rw [newlyOpened_of_epoch (by simp [ho, ho', hepoch])]
    refine h.extend hosts o.epoch (some o') hqueues hout (fun _ => hfloor) (.inl rfl) ?_ ?_
      (.inl ho'.symm) ?_ ?_ ?_
    · rwa [List.filterMap_nil, List.append_nil]
    · exact htold.append (hxo ▸ htold' hosts)
    · rw [List.filterMap_nil, List.append_nil]
      exact h.rising
    · intro p hp
      rw [List.filterMap_nil, List.append_nil] at hp
      rw [hqueues.floor]
      refine (h.opens_le p hp).imp_left ?_
      rintro ⟨_, hin, hle⟩
      cases ho.symm.trans hin
      exact ⟨o', ho', hepoch ▸ hle⟩
    · intro _ hin
      cases ho'.symm.trans hin
      rw [hqueues.floor, hepoch]
      exact hfloor
  | @opens out _ o' hrise hfloor hepoch hhost ho' hout htold' =>
    have hbelow : Below o'.epoch x := by
      rcases hx with rfl | ⟨_, hx⟩
      · exact hrise
      · exact fun o ho => (hx o ho).trans_le hfloor
    have hlow : ∀ p ∈ s.opens, p.1 < o'.epoch := by
      intro p hp
      rcases h.opens_le p hp with ⟨o, ho, hle⟩ | hlt
      · exact hle.trans_lt (hrise o ho)
      · exact hlt.trans_le hfloor
    have hnote : newlyOpened s.lineage l' = [.opened o'.epoch (some o'.host)] := by
      rw [newlyOpened_of_below ho' hrise, hqueues.adoptedHost, hhost]
    rw [hnote]
    refine h.extend (hosts ++ [(o'.epoch, o'.host)]) o'.epoch (some o') hqueues hout
      (fun _ => hfloor) (.inr ⟨_, _, rfl⟩) ?_ ?_ (.inl ho'.symm) ?_ ?_ ?_
    · rw [hhosts, List.map_append]
      rfl
    · exact (htold.mono (List.subset_append_left ..)).append (htold' _ x (by simp) hbelow)
    · refine List.pairwise_append.mpr ⟨h.rising, List.pairwise_singleton _ _, fun p hp q hq => ?_⟩
      cases List.mem_singleton.mp hq
      exact hlow p hp
    · intro p hp
      refine .inl ⟨o', ho', ?_⟩
      rcases List.mem_append.mp hp with hp | hp
      · exact (hlow p hp).le
      · cases List.mem_singleton.mp hp
        exact le_refl _
    · intro o ho
      cases ho'.symm.trans ho
      rw [hqueues.floor]
      exact hfloor

/-- A new pair. -/
theorem adopting (h : s.Sound) (epoch : Nat) (host : Option NodeId) :
    (s.adopting epoch host).Sound := by
  obtain ⟨hosts, x, hhosts, htold, hx⟩ := h.told
  have hstream : (s.adopting epoch host).stream = s.stream ++ [.migrated epoch host] := by
    simp [stream, popped, Reader.adopting, Lineage.adopting, Lineage.push, LineageNote.popped?]
  have hlog : (s.adopting epoch host).opens = s.opens := by
    simp [opens, Reader.adopting, LineageNote.opened?]
  refine ⟨⟨hosts, x, hlog.trans hhosts, ?_, hx⟩, hlog.symm ▸ h.rising, hlog.symm ▸ h.opens_le,
    h.opened_floor, ?_, ?_, ?_, ?_⟩
  · rw [hstream]
    exact .snoc htold (.migrated epoch host)
  · intro r hr e he
    rcases List.mem_append.mp
      (show r ∈ s.lineage.pending ++ [.migrated epoch host] from hr) with hr | hr
    · exact h.pending_floor r hr e he
    · cases List.mem_singleton.mp hr
      cases he
  · intro c hc
    exact h.cuts c (by simpa [Reader.adopting] using hc)
  · exact h.fenced.snoc fun r hr => nomatch hr
  · rw [hstream, List.filterMap_append, h.migrated]
    simp [Reader.adopting, HostedRead.pair?, LineageNote.changed?]

theorem cut (h : s.Sound) (epoch : Nat) : (s.cut epoch).Sound := by
  obtain ⟨hosts, x, hhosts, htold, hx⟩ := h.told
  have hlog : (s.cut epoch).opens = s.opens := by
    simp [opens, Reader.cut, LineageNote.opened?]
  have hpopped : (s.cut epoch).popped = s.popped := by
    simp [popped, Reader.cut, LineageNote.popped?]
  have hchanged : (s.cut epoch).log.filterMap LineageNote.changed? =
      s.log.filterMap LineageNote.changed? := by
    simp [Reader.cut, LineageNote.changed?]
  have hfenced : Fenced (s.cut epoch).log := h.fenced.snoc fun r hr => nomatch hr
  have hcuts : epoch ≤ (s.cut epoch).lineage.floor → s.lineage.floor ≤ (s.cut epoch).lineage.floor →
      ∀ c, .cut c ∈ (s.cut epoch).log → c ≤ (s.cut epoch).lineage.floor := by
    intro hnew hold c hc
    rcases List.mem_append.mp hc with hc | hc
    · exact (h.cuts c hc).trans hold
    · cases List.mem_singleton.mp hc
      exact hnew
  rcases Nat.lt_or_ge s.lineage.floor epoch with hlt | hge
  · have hcut : (s.cut epoch).lineage = { s.lineage with
        floor := epoch
        opened := s.lineage.opened.filter fun o => epoch ≤ o.epoch
        pending := s.lineage.pending.filter fun r => r.epoch?.all (epoch ≤ ·)
        held := s.lineage.held.filter fun ev => epoch ≤ ev.epoch } := if_neg (Nat.not_le.mpr hlt)
    have hstream : (s.cut epoch).stream =
        s.popped ++ s.lineage.pending.filter (·.outlives epoch) := by
      rw [stream, hpopped, hcut]
      rfl
    obtain ⟨z, hz, hrel⟩ := @Told.cut K _ _ _ _ _ epoch htold
    refine ⟨⟨hosts, z, hlog.trans hhosts, hstream.symm ▸ hz, ?_⟩, hlog.symm ▸ h.rising, ?_, ?_, ?_,
      hcuts ?_ ?_, hfenced, ?_⟩
    · have hopened : (s.cut epoch).lineage.opened = s.lineage.opened.filter fun o =>
          epoch ≤ o.epoch := by
        rw [hcut]
      have hfloor : (s.cut epoch).lineage.floor = epoch := by rw [hcut]
      rw [hopened, hfloor]
      have hzb : Below epoch x → Below epoch z := by
        rcases hrel with rfl | ⟨hzb, _⟩
        · exact id
        · exact fun _ => hzb
      rcases hx with rfl | ⟨hnone, hx⟩
      · cases ho : s.lineage.opened with
        | none =>
          rw [ho] at hzb
          exact .inr ⟨rfl, hzb fun o ho => (nomatch ho)⟩
        | some o =>
          rw [ho] at hzb hrel
          by_cases hle : epoch ≤ o.epoch
          · rcases hrel with rfl | ⟨_, hxb⟩
            · exact .inl (by rw [Option.filter_some, if_pos (decide_eq_true hle)])
            · exact absurd (hxb o rfl) (Nat.not_lt.mpr hle)
          refine .inr ⟨by rw [Option.filter_some, if_neg (by simpa using hle)], hzb fun _ hin => ?_⟩
          cases hin
          exact Nat.not_le.mp hle
      · rw [hnone]
        exact .inr ⟨rfl, hzb fun o ho => (hx o ho).trans hlt⟩
    · rw [hlog, hcut]
      intro p hp
      rcases h.opens_le p hp with ⟨o, ho, hle⟩ | hfloor
      · by_cases hkeep : epoch ≤ o.epoch
        · exact .inl ⟨o, Option.mem_filter_iff.mpr ⟨ho, decide_eq_true hkeep⟩, hle⟩
        · exact .inr (hle.trans_lt (Nat.not_le.mp hkeep))
      · exact .inr (hfloor.trans hlt)
    · rw [hcut]
      exact fun o ho => of_decide_eq_true (Option.mem_filter_iff.mp ho).2
    · rw [hcut]
      intro r hr e he
      have hkeep := (List.mem_filter.mp hr).2
      rw [show r.epoch? = some e from he] at hkeep
      exact of_decide_eq_true hkeep
    · rw [hcut]
    · rw [hcut]
      exact hlt.le
    · rw [hstream, hchanged, ← h.migrated, stream, List.filterMap_append, List.filterMap_append,
        List.filterMap_filter]
      congr 1
      refine List.filterMap_congr fun r _ => ?_
      cases r with
      | migrated => rfl
      | gap | wrote => exact ite_self _
  · have hcut : (s.cut epoch).lineage = s.lineage := if_pos hge
    have hstream : (s.cut epoch).stream = s.stream := by rw [stream, hpopped, hcut, stream]
    refine ⟨⟨hosts, x, hlog.trans hhosts, hstream.symm ▸ htold, hcut.symm ▸ hx⟩,
      hlog.symm ▸ h.rising, ?_,
      hcut.symm ▸ h.opened_floor, hcut.symm ▸ h.pending_floor, hcuts ?_ ?_, hfenced, ?_⟩
    · rw [hlog, hcut]
      exact h.opens_le
    · rwa [hcut]
    · rw [hcut]
    · rw [hstream, h.migrated, hchanged]

theorem pop (h : s.Sound) : s.pop.Sound := by
  cases hpending : s.lineage.pending with
  | nil => rwa [pop_of_nil hpending]
  | cons r rest =>
    rw [pop_of_cons hpending]
    obtain ⟨hosts, x, hhosts, htold, hx⟩ := h.told
    have hr := h.pending_floor r (hpending ▸ List.mem_cons_self ..)
    have hstream : (⟨{ s.lineage with pending := rest }, s.log ++ [.popped r]⟩ : Reader K).stream =
        s.stream := by
      simp [stream, popped, LineageNote.popped?, hpending]
    have hlog : (⟨{ s.lineage with pending := rest }, s.log ++ [.popped r]⟩ : Reader K).opens =
        s.opens := by
      simp [opens, LineageNote.opened?]
    refine ⟨⟨hosts, x, hlog.trans hhosts, hstream.symm ▸ htold, hx⟩, hlog.symm ▸ h.rising,
      hlog.symm ▸ h.opens_le, h.opened_floor, ?_, ?_, h.fenced.snoc ?_, ?_⟩
    · exact fun r' hr' => h.pending_floor r' (hpending ▸ List.mem_cons_of_mem _ hr')
    · intro c hc
      exact h.cuts c (by simpa using hc)
    · rintro _ hnote c hc e he
      cases hnote
      exact (h.cuts c hc).trans (hr e he)
    · rw [hstream, h.migrated]
      simp [LineageNote.changed?]

end Sound

/-- No position queued or popped is above `bound`. -/
structure Modest (bound : Nat) (s : Reader K) : Prop where
  lineage : s.lineage.Modest bound
  popped : ∀ r ∈ s.popped, ∀ t ∈ r.token?, t.seq ≤ bound

/-- The positions of the events a call brings are at most `bound`. -/
def Brings (bound : Nat) : LineageOp K → Prop
  | .admitEvent event => event.Within bound
  | .adopt .. | .cut _ | .pop => True

section

variable {bound : Nat} {s : Reader K}

theorem popped_admitEvent (s : Reader K) (event : PeerWrite K) :
    (s.admitEvent event).popped = s.popped := by
  have hquiet : (newlyOpened s.lineage (s.lineage.admitEvent event)).filterMap LineageNote.popped? =
      [] := by
    unfold newlyOpened
    split
    · rfl
    · split <;> rfl
  simp [popped, Reader.admitEvent, hquiet]

theorem foldl_admitEvent (hbound : bound ≤ u64Max) {events : List (PeerWrite K)}
    (hevents : ∀ event ∈ events, event.Within bound) (h : s.Sound ∧ s.Modest bound) :
    (events.foldl admitEvent s).Sound ∧ (events.foldl admitEvent s).Modest bound := by
  refine List.foldlRecOn events admitEvent (motive := fun s => s.Sound ∧ s.Modest bound) h
    fun s hs event hin => ?_
  have hevent := hevents event hin
  refine ⟨hs.1.admitEvent (hevent.mono hbound), hs.2.lineage.admitEvent hevent, ?_⟩
  rw [popped_admitEvent]
  exact hs.2.popped

theorem call_keeps (hbound : bound ≤ u64Max) {op : LineageOp K} (hop : Brings bound op)
    (h : s.Sound ∧ s.Modest bound) : (s.call op).Sound ∧ (s.call op).Modest bound := by
  cases op with
  | adopt epoch host =>
    show (s.adopt epoch host).Sound ∧ (s.adopt epoch host).Modest bound
    unfold Reader.adopt
    split
    · exact h
    refine foldl_admitEvent hbound h.2.lineage.held ⟨h.1.adopting epoch host,
      h.2.lineage.adopting epoch host, ?_⟩
    intro r hr
    exact h.2.popped r (by simpa [popped, Reader.adopting, LineageNote.popped?] using hr)
  | admitEvent event => exact foldl_admitEvent hbound (List.forall_mem_singleton.mpr hop) h
  | cut epoch =>
    refine ⟨h.1.cut epoch, h.2.lineage.cut epoch, fun r hr => h.2.popped r ?_⟩
    simpa [popped, Reader.call, Reader.cut, LineageNote.popped?] using hr
  | pop =>
    refine ⟨h.1.pop, ?_⟩
    show s.pop.Modest bound
    cases hpending : s.lineage.pending with
    | nil =>
      rw [pop_of_nil hpending]
      exact h.2
    | cons r rest =>
      rw [pop_of_cons hpending]
      refine ⟨⟨h.2.lineage.held, fun r' hr' => ?_⟩, fun r' hr' => ?_⟩
      · exact h.2.lineage.pending r' (hpending ▸ List.mem_cons_of_mem _ hr')
      have hr' : r' ∈ s.popped ∨ r' = r := by simpa [popped, LineageNote.popped?] using hr'
      rcases hr' with hr' | rfl
      · exact h.2.popped r' hr'
      · exact h.2.lineage.pending r' (hpending ▸ List.mem_cons_self ..)

theorem run_keeps (hbound : bound ≤ u64Max) {ops : List (LineageOp K)}
    (hops : ∀ op ∈ ops, Brings bound op) :
    (run ops).Sound ∧ (run ops).Modest bound := by
  have hfold : ∀ {s : Reader K}, s.Sound ∧ s.Modest bound →
      (ops.foldl call s).Sound ∧ (ops.foldl call s).Modest bound := by
    induction ops with
    | nil => exact fun h => h
    | cons op ops ih =>
      exact fun h => ih (fun op hin => hops op (List.mem_cons_of_mem _ hin))
        (call_keeps hbound (hops op (List.mem_cons_self ..)) h)
  exact hfold ⟨sound_new, ⟨fun _ hin => (nomatch hin), fun _ hin => (nomatch hin)⟩,
    fun _ hin => nomatch hin⟩

end

/-! ## Order and coverage -/

/-- What is popped comes in order, each epoch behind a gap of its own, with nothing skipped
that is not covered, nothing below a cut and one host to an epoch; and every pair adopted
is told once. -/
theorem hosted_stream {ops : List (LineageOp K)} (hops : ∀ op ∈ ops, Brings (u64Max - 1) op) :
    ((run ops).popped.filterMap HostedRead.token?).Pairwise (· < ·) ∧
      (∀ epoch r, ((run ops).popped.filter fun r => r.epoch? = some epoch).head? = some r →
        ∃ m, r = .gap m) ∧
      (∀ before host token key after, (run ops).popped = before ++ .wrote host token key :: after →
        ∀ seq < token.seq, (∃ host key, .wrote host ⟨token.epoch, seq⟩ key ∈ before) ∨
          ∃ m, .gap m ∈ before ∧ ⟨token.epoch, seq⟩ ≤ m) ∧
      (∀ before c after, (run ops).log = before ++ .cut c :: after →
        ∀ r, .popped r ∈ after → ∀ epoch, r.epoch? = some epoch → c ≤ epoch) ∧
      (∀ host token key, .wrote host token key ∈ (run ops).popped →
        (run ops).opens.filter (fun p => p.1 = token.epoch) = [(token.epoch, some host)]) ∧
      (run ops).popped.filterMap HostedRead.pair? ++
          (run ops).lineage.pending.filterMap HostedRead.pair? =
        (run ops).log.filterMap LineageNote.changed? := by
  obtain ⟨hsound, hmodest⟩ := run_keeps (Nat.sub_le _ _) hops
  obtain ⟨hosts, x, hhosts, htold, _⟩ := hsound.told
  generalize run ops = s at *
  have hseq : ∀ t ∈ s.stream.filterMap HostedRead.token?, t.seq < u64Max := by
    intro t ht
    obtain ⟨r, hr, hrt⟩ := List.mem_filterMap.mp ht
    have hle : t.seq ≤ u64Max - 1 := by
      rcases List.mem_append.mp hr with hr | hr
      · exact hmodest.popped r hr t hrt
      · exact hmodest.lineage.pending r hr t hrt
    exact Nat.lt_of_le_of_lt hle (by decide)
  have hcovers : ∀ before host token key after, s.popped = before ++ .wrote host token key ::
    after →
      Covers before token.epoch token.seq := by
    intro before host token key after heq
    refine htold.covers.2 before host token key (after ++ s.lineage.pending) ?_
    rw [stream, heq]
    simp
  refine ⟨?_, ?_, ?_, hsound.fenced, ?_, ?_⟩
  · exact (htold.tokens_sorted hseq).1.sublist ((List.sublist_append_left ..).filterMap _)
  · intro epoch r hr
    rw [List.head?_filter, List.find?_eq_some_iff_append] at hr
    obtain ⟨hr, before, after, heq, hbefore⟩ := hr
    have hepoch : r.epoch? = some epoch := of_decide_eq_true hr
    cases r with
    | gap m => exact ⟨m, rfl⟩
    | migrated => cases hepoch
    | wrote host token key =>
      obtain ⟨m, hin, hm⟩ := (hcovers before host token key after heq).1
      have hfirst : HostedRead.epoch? (.gap m : HostedRead K) = some epoch :=
        (congrArg some hm).trans hepoch
      exact absurd hfirst (by simpa using hbefore _ hin)
  · intro before host token key after heq seq hlt
    rcases (hcovers before host token key after heq).2 seq hlt with hwrote | ⟨m, hin, hepoch, hle⟩
    · exact .inl hwrote
    · exact .inr ⟨m, hin, WriteToken.le_iff.mpr (.inr ⟨hepoch.symm, hle⟩)⟩
  · intro host token key hin
    have hopen := htold.host_mem.2 host token key (List.mem_append_left _ hin)
    have hmem : (token.epoch, some host) ∈ s.opens := by
      rw [hhosts]
      exact List.mem_map_of_mem hopen
    exact filter_eq_singleton hsound.rising hmem
  · rw [← List.filterMap_append]
    exact hsound.migrated

def streamHost : NodeId := .ofChar 'a'

/-- A host is adopted, writes twice and is read. -/
def streamOps : List (LineageOp Nat) :=
  [.adopt 1 (some streamHost), .admitEvent (.wrote streamHost ⟨1, 2⟩ 7),
    .admitEvent (.wrote streamHost ⟨1, 4⟩ 8), .pop, .pop, .pop, .cut 1, .pop, .pop]

theorem hosted_stream_two_writes :
    (run streamOps).popped = [.migrated 1 (some streamHost), .gap ⟨1, 1⟩,
      .wrote streamHost ⟨1, 2⟩ 7,
        .gap ⟨1, 3⟩, .wrote streamHost ⟨1, 4⟩ 8] ∧
      ((run streamOps).popped.filterMap HostedRead.token?).Pairwise (· < ·) ∧
      (run streamOps).opens.filter (fun p => p.1 = 1) = [(1, some streamHost)] := by
  have hops : ∀ op ∈ streamOps, Brings (u64Max - 1) op := by
    simp [streamOps, Brings, PeerWrite.Within, u64Max]
  have hpopped : (run streamOps).popped = [.migrated 1 (some streamHost), .gap ⟨1, 1⟩,
      .wrote streamHost ⟨1, 2⟩ 7, .gap ⟨1, 3⟩, .wrote streamHost ⟨1, 4⟩ 8] := by decide
  obtain ⟨hsorted, _, _, _, hhost, _⟩ := hosted_stream hops
  exact ⟨hpopped, hsorted, hhost streamHost ⟨1, 2⟩ 7 (by rw [hpopped]; simp)⟩

end Reader

end Groupnet
