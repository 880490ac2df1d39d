import Groupnet.Engine.Fencing
import Groupnet.Hosted.Reader

/-!
# The adopted host's writes

A write of the adopted host at the adopted epoch reaches the consumer, unless the epoch was
opened by another host.  An epoch is its first host's for good, also when the election's
tie-break adopts another host at it, and the writes of the second are dropped.
-/

namespace Groupnet

namespace Reader

variable {K : Type}

variable {s : Reader K} {l : Lineage K} {epoch : Nat} {o : Opened} {token : WriteToken} (key : K)

/-- Adopted epochs never go back. -/
def Forward : Reader K → List (LineageOp K) → Prop
  | _, [] => True
  | s, op :: ops => (∀ epoch host, op = .adopt epoch host → s.lineage.adoptedEpoch ≤ epoch) ∧
      Forward (s.call op) ops

/-- Where a peer's event is judged: after a row of calls, and in an adoption, where the
events held are judged again one by one. -/
inductive Moment (ops : List (LineageOp K)) : Reader K → Prop
  | settled : Moment ops (run ops)
  | replaying {epoch : Nat} {host : Option NodeId} {before rest : List (PeerWrite K)}
      (hheld : (run ops).lineage.held = before ++ rest)
      (hforward : (run ops).lineage.adoptedEpoch ≤ epoch) :
      Moment ops (before.foldl admitEvent ((run ops).adopting epoch host))

/-- A write of `peer` is queued, or is at or below one already told or covered by a gap of
a lineage of `peer`. -/
def Reaches (s : Reader K) (peer : NodeId) (token : WriteToken) (key : K) : Prop :=
  (∃ out, (s.admitEvent (.wrote peer token key)).lineage.pending = s.lineage.pending ++ out ∧
    .wrote peer token key ∈ out) ∨
  (∃ token' key', .wrote peer token' key' ∈ s.stream ∧ token ≤ token') ∨
  ∃ m, .gap m ∈ s.stream ∧ (m.epoch, some peer) ∈ s.opens ∧ token ≤ m

/-- The cursor is not above the watch. -/
def Trails (l : Lineage K) : Prop := ∀ o ∈ l.opened, o.epoch ≤ l.adoptedEpoch

theorem trails_admitEvent {event : PeerWrite K} (h : Trails l) (hfits : event.Within u64Max) :
    Trails (l.admitEvent event) := by
  obtain ⟨out, hqueues, htakes⟩ := l.takes_admitEvent hfits
  unfold Trails
  rw [hqueues.adoptedEpoch]
  cases htakes with
  | quiet ho =>
    rw [ho]
    exact h
  | continued ho ho' hepoch =>
    intro o hin
    cases ho'.symm.trans hin
    rw [hepoch]
    exact h _ ho
  | opens _ _ hepoch _ ho' =>
    intro o hin
    cases ho'.symm.trans hin
    exact hepoch.le

theorem trails_foldl {events : List (PeerWrite K)} (hevents : ∀ event ∈ events, event.Within u64Max)
    (h : Trails s.lineage) : Trails (events.foldl admitEvent s).lineage :=
  List.foldlRecOn events admitEvent (motive := fun s => Trails s.lineage) h
    fun _ hs event hin => trails_admitEvent hs (hevents event hin)

theorem trails_adopting (host : Option NodeId) (h : Trails s.lineage)
    (hforward : s.lineage.adoptedEpoch ≤ epoch) : Trails (s.adopting epoch host).lineage :=
  fun o ho => (h o ho).trans hforward

theorem trails_call {op : LineageOp K} (h : Trails s.lineage) (hop : Brings u64Max op)
    (hheld : s.lineage.Modest u64Max)
    (hforward : ∀ epoch host, op = .adopt epoch host → s.lineage.adoptedEpoch ≤ epoch) :
    Trails (s.call op).lineage := by
  cases op with
  | adopt epoch host =>
    show Trails (s.adopt epoch host).lineage
    unfold Reader.adopt
    split
    · exact h
    · exact trails_foldl hheld.held (trails_adopting host h (hforward epoch host rfl))
  | admitEvent event => exact trails_admitEvent h hop
  | cut epoch =>
    show Trails (s.lineage.cut epoch)
    unfold Lineage.cut
    split
    · exact h
    · exact fun o ho => h o (Option.mem_filter_iff.mp ho).1
  | pop =>
    show Trails s.lineage.pop.1
    unfold Lineage.pop
    split <;> exact h

theorem trails_calls {ops : List (LineageOp K)} (hops : ∀ op ∈ ops, Brings u64Max op)
    (hs : s.Sound ∧ s.Modest u64Max) (h : Trails s.lineage) (hforward : Forward s ops) :
    Trails (ops.foldl call s).lineage := by
  induction ops generalizing s with
  | nil => exact h
  | cons op ops ih =>
    have hop := hops op (List.mem_cons_self ..)
    exact ih (fun op hin => hops op (List.mem_cons_of_mem _ hin))
      (call_keeps (Nat.le_refl _) hop hs) (trails_call h hop hs.2.lineage hforward.1) hforward.2

/-- What holds wherever an event is judged. -/
theorem Moment.sound {ops : List (LineageOp K)} (hs : Moment ops s)
    (hops : ∀ op ∈ ops, Brings u64Max op) (hforward : Forward new ops) :
    s.Sound ∧ Trails s.lineage := by
  have hrun := run_keeps (Nat.le_refl _) hops
  have hnew : (run [] : Reader K).Sound ∧ (run [] : Reader K).Modest u64Max :=
    run_keeps (Nat.le_refl _) fun _ h => nomatch h
  have htrails : Trails (run ops).lineage :=
    trails_calls hops hnew (fun _ ho => nomatch ho) hforward
  cases hs with
  | settled => exact ⟨hrun.1, htrails⟩
  | @replaying epoch host before rest hheld hepoch =>
    have hbefore : ∀ event ∈ before, event.Within u64Max := fun event hin =>
      hrun.2.lineage.held event (hheld ▸ List.mem_append_left _ hin)
    have hadopting : ((run ops).adopting epoch host).Modest u64Max :=
      ⟨hrun.2.lineage.adopting epoch host, fun r hr => hrun.2.popped r
        (by simpa [popped, Reader.adopting, LineageNote.popped?] using hr)⟩
    exact ⟨(foldl_admitEvent (Nat.le_refl _) hbefore ⟨hrun.1.adopting epoch host, hadopting⟩).1,
      trails_foldl hbefore (trails_adopting host htrails hepoch)⟩

theorem Sound.host_unique (h : s.Sound) {host host' : Option NodeId} (hin : (epoch, host) ∈ s.opens)
    (hin' : (epoch, host') ∈ s.opens) : host = host' := by
  have hone := filter_eq_singleton h.rising hin
  have hmem : (epoch, host') ∈ s.opens.filter fun p => p.1 = epoch :=
    List.mem_filter.mpr ⟨hin', decide_eq_true rfl⟩
  rw [hone] at hmem
  exact (congrArg Prod.snd (List.mem_singleton.mp hmem)).symm

theorem Sound.opens_of_told {hosts : List (Nat × NodeId)} {host : NodeId}
    (hhosts : s.opens = hosts.map fun p => (p.1, some p.2)) (hin : (epoch, host) ∈ hosts) :
    (epoch, some host) ∈ s.opens := by
  rw [hhosts]
  exact List.mem_map_of_mem hin

/-- The open epoch's host is the host of every write of it. -/
theorem Sound.opened (h : s.Sound) (ho : s.lineage.opened = some o) :
    (o.epoch, some o.host) ∈ s.opens ∧ Covers s.stream o.epoch o.next ∧
      (∀ r ∈ s.stream, ∀ e ∈ r.epoch?, e ≤ o.epoch) ∧
        ∀ host token key, .wrote host token key ∈ s.stream → token.epoch = o.epoch →
          host = o.host := by
  obtain ⟨hosts, x, hhosts, htold, hx⟩ := h.told
  have hcursor : x = some o := by
    rcases hx with rfl | ⟨hnone, _⟩
    · exact ho
    · cases hnone.symm.trans ho
  subst hcursor
  have hmine : (o.epoch, some o.host) ∈ s.opens := opens_of_told hhosts (htold.host_mem.1 o rfl)
  refine ⟨hmine, htold.covers.1 o rfl, ?_, ?_⟩
  · intro r hr e he
    obtain ⟨o', ho', hle⟩ := htold.epoch_le hr he
    cases ho'
    exact hle
  · intro host token key hin hepoch
    have htheirs := opens_of_told hhosts (htold.host_mem.2 host token key hin)
    rw [hepoch] at htheirs
    exact Option.some.inj (h.host_unique htheirs hmine)

/-- A write of another host at the open epoch is dropped. -/
theorem admitEvent_of_other {peer : NodeId} (ho : l.opened = some o)
    (hepoch : o.epoch = token.epoch) (hne : o.host ≠ peer) :
    l.admitEvent (.wrote peer token key) = l := by
  show l.judge peer token.epoch (.wrote peer token key) = l
  unfold Lineage.judge
  simp [ho, hepoch, Ne.symm hne]

theorem admitEvent_of_host (ho : l.opened = some o) (hepoch : o.epoch = token.epoch)
    (hfloor : l.floor ≤ token.epoch) :
    l.admitEvent (.wrote o.host token key) = l.deliver (.wrote o.host token key) := by
  show l.judge o.host token.epoch (.wrote o.host token key) = _
  unfold Lineage.judge
  simp [ho, hepoch, Nat.not_lt.mpr hfloor]

theorem admitEvent_of_adopted {peer : NodeId} (hbelow : Below token.epoch l.opened)
    (hhost : l.adoptedHost = some peer) (hepoch : l.adoptedEpoch = token.epoch)
    (hfloor : l.floor ≤ token.epoch) :
    l.admitEvent (.wrote peer token key) = l.openWith peer token.epoch (.wrote peer token key) := by
  show l.judge peer token.epoch (.wrote peer token key) = _
  unfold Lineage.judge
  cases ho : l.opened with
  | none => simp [Nat.not_lt.mpr hfloor, hepoch, hhost]
  | some o =>
    have hlt : o.epoch < token.epoch := hbelow o ho
    simp [Nat.not_lt.mpr hfloor, Nat.not_lt.mpr hlt.le, hlt.ne', hepoch, hhost]

/-- A write of the adopted host at the adopted epoch, not below the cut, reaches the
consumer exactly when the epoch is not open under another host. -/
theorem adopted_write_reaches_iff {ops : List (LineageOp K)} (hops : ∀ op ∈ ops, Brings u64Max op)
    (hforward : Forward new ops) {s : Reader K} (hs : Moment ops s) {peer : NodeId}
    {token : WriteToken} {key : K} (hhost : s.lineage.adoptedHost = some peer)
    (hepoch : s.lineage.adoptedEpoch = token.epoch) (hfloor : s.lineage.floor ≤ token.epoch) :
    Reaches s peer token key ↔ ∀ o ∈ s.lineage.opened, o.epoch = token.epoch → o.host = peer := by
  obtain ⟨hsound, htrails⟩ := hs.sound hops hforward
  constructor
  · intro hreach o ho hoe
    obtain ⟨hmine, _, hlast, hhosts⟩ := hsound.opened ho
    -- Nothing of the stream is above the open epoch.
    have htop : ∀ r ∈ s.stream, ∀ t : WriteToken, r.epoch? = some t.epoch → token ≤ t →
        t.epoch = o.epoch := by
      intro r hr t hrt hle
      have hle' := hlast r hr t.epoch hrt
      rcases WriteToken.le_iff.mp hle with hlt | ⟨heq, _⟩ <;> omega
    by_contra hne
    rcases hreach with ⟨out, hpending, hin⟩ | ⟨token', key', hin, hle⟩ | ⟨m, hin, hopen, hle⟩
    · have hsame : (s.admitEvent (.wrote peer token key)).lineage.pending = s.lineage.pending :=
        congrArg Lineage.pending (admitEvent_of_other key ho hoe hne)
      rw [List.self_eq_append_right.mp (hsame.symm.trans hpending)] at hin
      cases hin
    · exact hne (hhosts peer token' key' hin (htop _ hin token' rfl hle)).symm
    · rw [htop _ hin m rfl hle] at hopen
      exact hne (Option.some.inj (hsound.host_unique hmine hopen))
  · intro hown
    by_cases hbelow : Below token.epoch s.lineage.opened
    · have hqueues := (s.lineage.openWith_wrote peer token key).1
      rw [← admitEvent_of_adopted key hbelow hhost hepoch hfloor] at hqueues
      exact .inl ⟨_, hqueues.pending, by simp⟩
    unfold Below at hbelow
    push Not at hbelow
    obtain ⟨o, ho, hge⟩ := hbelow
    have hoe : o.epoch = token.epoch := Nat.le_antisymm (hepoch ▸ htrails o ho) hge
    cases hown o ho hoe
    obtain ⟨hmine, ⟨_, hcovers⟩, _, hhosts⟩ := hsound.opened ho
    rcases Nat.lt_or_ge token.seq o.next with hlt | hge
    · right
      rcases hcovers token.seq hlt with ⟨host, key', hin⟩ | ⟨m, hin, hme, hle⟩
      · cases hhosts host _ key' hin rfl
        exact .inl ⟨_, key', hin, WriteToken.le_iff.mpr (.inr ⟨hoe.symm, Nat.le_refl _⟩)⟩
      · exact .inr ⟨m, hin, hme ▸ hmine,
          WriteToken.le_iff.mpr (.inr ⟨hoe.symm.trans hme.symm, hle⟩)⟩
    · have hqueues := (@Lineage.deliver_wrote K s.lineage o o.host token key ho hge).1
      rw [← admitEvent_of_host key ho hoe hfloor] at hqueues
      exact .inl ⟨_, hqueues.pending, List.mem_append_right _ (List.mem_singleton_self _)⟩

def firstHost : NodeId := .ofChar 'a'

def secondHost : NodeId := .ofChar 'b'

/-- Two hosts of one epoch, the second adopted by the tie-break. -/
def twoHosts : List (LineageOp Nat) :=
  [.adopt 1 (some firstHost), .admitEvent (.wrote firstHost ⟨1, 1⟩ 7), .adopt 1 (some secondHost)]

theorem second_host_write_lost :
    (∀ op ∈ twoHosts, Brings u64Max op) ∧ Forward new twoHosts ∧
      cmpPair (.ofChar 'g') (1, some secondHost) (1, some firstHost) = .gt ∧
      (run twoHosts).lineage.adoptedHost = some secondHost ∧
        (run twoHosts).lineage.adoptedEpoch = 1 ∧
      (run twoHosts).lineage.floor ≤ 1 ∧ ¬ Reaches (run twoHosts) secondHost ⟨1, 1⟩ 8 := by
  have hstream : (run twoHosts).stream = [.migrated 1 (some firstHost), .gap ⟨1, 0⟩,
      .wrote firstHost ⟨1, 1⟩ 7, .migrated 1 (some secondHost)] := by decide
  have hsame : ((run twoHosts).admitEvent (.wrote secondHost ⟨1, 1⟩ 8)).lineage.pending =
      (run twoHosts).lineage.pending := by decide
  refine ⟨?_, ?_, by decide, by decide, by decide, by decide, ?_⟩
  · simp [twoHosts, Brings, PeerWrite.Within, u64Max]
  · refine ⟨?_, ?_, ?_, trivial⟩
    · rintro _ _ ⟨⟩
      decide
    · rintro _ _ ⟨⟩
    · rintro _ _ ⟨⟩
      decide
  · rintro (⟨out, hpending, hin⟩ | ⟨token, key, hin, _⟩ | ⟨m, hin, hopen, hle⟩)
    · rw [List.self_eq_append_right.mp (hsame.symm.trans hpending)] at hin
      cases hin
    · rw [hstream] at hin
      have hhost : secondHost = firstHost := by simp_all
      exact absurd hhost (by decide)
    rw [hstream] at hin
    cases (by simpa using hin : m = ⟨1, 0⟩)
    exact absurd hle (by decide)

theorem adopted_write_reaches_first :
    Reaches (run [.adopt 1 (some firstHost), .admitEvent (.wrote firstHost ⟨1, 1⟩ 7)])
      firstHost ⟨1, 2⟩ 8 :=
  (adopted_write_reaches_iff (by simp [Brings, PeerWrite.Within, u64Max])
    (by simp [Forward, new, Lineage.new, call]) .settled (by decide) (by decide) (by decide)).mpr
      (by decide)

end Reader

end Groupnet
