import Groupnet.Replication.Sound

/-!
# A subscription keeps a session sound

What a subscription holds was checked when it was taken in, so a request made of it later
passes its own checks: a cut that is answered with the end of a lineage never ends in a
rejection.
-/

namespace Groupnet.Replication

/-! ## What the checks say -/

variable {maxCursorBytes : Nat} {limits : SubscriptionLimits} {f : Frame} {p : SubscriptionProgress}

theorem limits_of_metadata {key : SubscriberKey} {policy : RetentionPolicy} {requestId : List UInt8}
    (h : validateRequestMetadata key policy requestId maxCursorBytes limits = .ok ()) :
    limits.validate = .ok () ∧ key.Fits limits := by
  unfold validateRequestMetadata at h
  split at h
  · cases h
  rename_i hlimits
  split at h
  · cases h
  split at h
  · cases h
  rename_i hbounds
  simp only [not_or, Nat.not_lt, Bool.not_eq_true] at hbounds
  exact ⟨hlimits, hbounds.1, hbounds.2.1⟩

theorem RegisterSubscriber.limits_of_validate {request : RegisterSubscriber}
    (h : request.validate maxCursorBytes limits = .ok ()) :
    limits.validate = .ok () ∧ request.key.Fits limits := by
  unfold validate at h
  split at h
  · cases h
  · exact limits_of_metadata ‹_›

theorem RegisterReceipt.registered_of_validate {receipt : RegisterReceipt}
    {request : RegisterSubscriber}
    (h : receipt.validateAgainst request maxCursorBytes limits = .ok ()) :
    receipt.key = request.key ∧ request.key.Fits limits ∧ receipt.epoch.native.isEmpty = false ∧
      receipt.epoch.native.length ≤ limits.maxEpochBytes ∧
        receipt.guarded.history = receipt.epoch.history ∧
      receipt.guarded.validate request.key.scope maxCursorBytes = .ok () := by
  unfold validateAgainst at h
  split at h
  · cases h
  rename_i hrequest
  split at h
  · cases h
  rename_i hbinding
  split at h
  · cases h
  rename_i hbounds
  split at h
  · cases h
  split at h
  · cases h
  rename_i hhistory
  split at h
  · cases h
  rename_i hguarded
  simp only [not_or, not_not, Nat.not_lt, Bool.not_eq_true] at hbinding hbounds hhistory
  exact ⟨hbinding.1, (RegisterSubscriber.limits_of_validate hrequest).2, hbounds.1, hbounds.2,
    hhistory.2.trans hhistory.1.symm, hguarded⟩

theorem SubscriptionProgress.terminalRequest_validate {terminal : TerminalProgress}
    {registration : RegisterReceipt} {start : Cursor} (h : Steady f) (hp : f.subscription = some p)
    (hterminal : p.terminal = some terminal) (hregistration : p.registration = some registration)
    (hstart : p.sourceAck = some start) :
    ∃ request, p.terminalRequest terminal = some request ∧
      request.validate f.config.maxCursorBytes p.limits = .ok () := by
  have hkept := h.kept p hp
  obtain ⟨⟨hid, hidle⟩, hrequest⟩ := hkept.terminal terminal hterminal
  cases hr : terminal.request with
  | some request =>
    refine ⟨request, ?_, hrequest request hr⟩
    simp only [terminalRequest, hr]
  | none =>
    refine ⟨_, by simp only [terminalRequest, hr, hregistration, hstart]; rfl, ?_⟩
    obtain ⟨hscope, hname, hnative, hnativeLe⟩ := hkept.registration registration hregistration
    obtain ⟨hhistory, hvalid⟩ := hkept.acked registration start hregistration hstart
    unfold TerminalRequest.validate
    dsimp only
    rw [hscope, h.scope, hkept.limits]
    dsimp only
    rw [if_neg, if_neg, hvalid]
    · rfl
    · exact not_not.mpr hhistory.symm
    · simp only [not_or, Nat.not_lt, Bool.not_eq_true]
      exact ⟨hname.1, hname.2, hnative, hnativeLe, hid, hidle⟩

/-- A session with a subscription has no snapshot. -/
theorem Steady.unstaged (h : Steady f) (hs : f.protocol = .namedSubscription) :
    f.snapshot = none := by
  cases hn : f.snapshot with
  | none => rfl
  | some p => cases (h.named hs).symm.trans (h.staged (hn ▸ rfl)).1

theorem fit_of_follows {d : Data} {loose : Prop} {stage : Stage} (hfollows : stage.follows = true)
    (happlying : stage ≠ .applyingSubscriber) (hsnapshot : d.snapshot = none)
    (hp : d.subscription = some p) (hneeds : Needs loose p stage) : Fit d loose stage := by
  obtain ⟨hreplays, hrecovers⟩ := Stage.kind_of_follows hfollows
  refine ⟨?_, ?_, ?_, fun _ => ⟨p, hp, hneeds⟩, fun h => absurd h happlying⟩
  · exact fun h => nomatch hreplays.symm.trans h
  · exact fun _ q hq => nomatch hsnapshot.symm.trans hq
  · exact fun h => nomatch hrecovers.symm.trans h

namespace SessionEngine

variable {slack : Prop} {e : SessionEngine} {op : Operation} {stage : Stage}
  {p : SubscriptionProgress}

variable {o : Outcome}

/-- A session with a subscription, and its gate shut. -/
structure Subscribes (e : SessionEngine) (p : SubscriptionProgress) : Prop where
  shut : e.ready = false
  steady : Steady e.frame
  held : e.subscription = some p

namespace Subscribes

variable (h : e.Subscribes p)

include h

theorem named : e.protocol = .namedSubscription :=
  h.steady.subscribed (h.held ▸ rfl : e.subscription.isSome = true)

theorem unstaged : e.snapshot = none := h.steady.unstaged h.named

theorem attached : e.Attached := attached_of_none h.unstaged

theorem kept : Kept e.scope e.config p := h.steady.kept p h.held

/-- Another subscription in the same session. -/
theorem hold {q : SubscriptionProgress} (hkept : Kept e.scope e.config q) :
    Subscribes { e with subscription := some q } q :=
  ⟨h.shut, ⟨h.steady.scope, h.steady.named, fun _ => h.named, h.steady.staged,
    fun _ hp => Option.some.inj hp ▸ hkept⟩, rfl⟩

end Subscribes

theorem Sound.named (h : Sound slack e) (hp : e.subscription = some p) :
    e.protocol = .namedSubscription :=
  h.2.subscribed (hp ▸ rfl : e.subscription.isSome = true)

theorem Sound.undelayed (h : Sound slack e) (hstage : e.stage ≠ .retryWait) :
    e.retryDue = none := by
  cases h.1 with
  | waiting _ _ _ _ hdelayed | resting _ _ _ _ hdelayed | leftover _ _ _ _ _ _ _ hdelayed
  | stranded _ _ _ _ hdelayed => exact eq_none_of_isSome hdelayed
  | delayed _ hstage' => exact absurd hstage' hstage

theorem control_clampOperation (due : Time) : (e.clampOperation due).control = e.control := by
  unfold control clampOperation
  dsimp only
  rw [Option.isSome_map]
  rfl

/-- A stage at which nothing is under way, and after which nothing is asked for. -/
theorem sound_expireSubscriberTerminal (h : e.Subscribes p) :
    Safe slack e.expireSubscriberTerminal e :=
  still (.rest ⟨rfl, rfl, rfl, h.shut, h.attached, h.steady⟩ rfl) rfl

/-- A guarded subscription rests. -/
theorem sound_guarded (hidle : e.Idle) (hs : e.Subscribes p) (hstage : e.stage = .guarded)
    (hneeds : Needs (e.broke = true) p .guarded) : Sound slack e := by
  have hcontrol : e.control.stage = .guarded := hstage
  refine ⟨.resting hidle.out ?_ ?_ (congrArg Option.isSome hidle.due)
    (congrArg Option.isSome hidle.undelayed) (fun h => nomatch hs.shut.symm.trans h) ?_ ?_,
      hs.steady⟩
  · rw [hcontrol]
    rfl
  · rw [hcontrol]
    nofun
  · rw [hcontrol]
    exact fit_of_follows rfl nofun hs.unstaged hs.held hneeds
  · rw [hcontrol]
    nofun

/-- What is known of a guarded subscription. -/
theorem Sound.guarded (h : Sound slack e) (hstage : e.stage = .guarded) :
    e.Idle ∧ ∃ p, e.Subscribes p ∧ Needs (e.broke = true) p .guarded := by
  have hcontrol : e.control.stage = .guarded := hstage
  have hretry : e.stage ≠ .retryWait := hstage ▸ nofun
  cases h.1 with
  | waiting _ _ hwaits =>
    rw [hcontrol] at hwaits
    cases hwaits
  | delayed _ hstage' | stranded _ _ hstage' => cases hstage.symm.trans hstage'
  | leftover _ _ stage _ _ hstage' =>
    cases stage <;> cases hstage.symm.trans hstage'
  | resting hout _ _ _ _ _ hfit =>
    rw [hcontrol] at hfit
    obtain ⟨p, hp, hneeds⟩ := hfit.needs rfl
    exact ⟨h.idle hout hretry, p, ⟨h.shut (hstage ▸ nofun), h.2, hp⟩, hneeds⟩

/-- A subscription operation is taken up later. -/
theorem sound_retryLater (hundelayed : e.retryDue = none) {target : RetryTarget}
    (hs : e.Subscribes p)
    (hfollows : target.stage.follows = true) (htarget : target.stage ≠ .applyingSubscriber)
    (hneeds : Needs (e.broke = true) p target.stage) : Safe slack (e.retryLater target) e := by
  have hcalm : Calm { e with outstanding := none, operationDue := none } :=
    ⟨rfl, rfl, hundelayed, hs.shut, hs.attached, hs.steady⟩
  unfold retryLater
  split
  · exact sound_giveUp { hcalm with } rfl
  split
  · exact still (.rest { hcalm with } rfl) rfl
  split
  · exact sound_giveUp { hcalm with } rfl
  · exact .some ⟨fun _ => ⟨.delayed rfl rfl rfl rfl hs.shut hs.unstaged
      (fit_of_follows hfollows htarget hs.unstaged hs.held hneeds), hs.steady⟩, .quiet rfl rfl⟩

/-- The end of a lineage is asked for, when it can be. -/
theorem sound_commitSubscriberTerminal (hs : e.Subscribes p)
    (hpending : e.broke = true ∨ p.pendingAck = none)
    (hreject : Sound slack e ∨ ∃ terminal request, p.terminal = some terminal ∧
      p.terminalRequest terminal = some request ∧
      request.validate e.config.maxCursorBytes p.limits = .ok ()) :
    Safe slack e.commitSubscriberTerminal e := by
  unfold commitSubscriberTerminal
  rw [hs.held]
  dsimp only
  split
  · rename_i hnone
    rcases hreject with h | ⟨terminal, _, hsome, -⟩
    · exact still h rfl
    · cases hnone.symm.trans hsome
  · rename_i terminal hterminal
    split
    · exact sound_expireSubscriberTerminal hs
    split
    · rename_i hnone
      rcases hreject with h | ⟨_, _, hterminal', hsome, -⟩
      · exact still h rfl
      · cases hterminal.symm.trans hterminal'
        cases hnone.symm.trans hsome
    · rename_i request hrequest
      split
      · rename_i herror
        rcases hreject with h | ⟨_, _, hterminal', hsome, hok⟩
        · exact still h rfl
        cases hterminal.symm.trans hterminal'
        cases hrequest.symm.trans hsome
        cases herror.symm.trans hok
      · rename_i hok
        have hkept : Kept e.scope e.config
            { p with terminal := some { terminal with request := some request } } :=
          { hs.kept with
            terminal := fun _ ht => Option.some.inj ht ▸
              ⟨(hs.kept.terminal terminal hterminal).1, fun _ hr => Option.some.inj hr ▸ hok⟩ }
        have hs' := hs.hold hkept
        refine sound_ask rfl rfl hs.shut (fun _ _ => rfl) (fun _ => ⟨control_clampOperation _, rfl⟩)
          (fun hfunded => ?_) hs'.steady fun _ => sound_expireSubscriberTerminal { hs' with }
        have hnone : p.pendingAck = none :=
          hpending.resolve_left fun hb => nomatch (show e.broke = false from hfunded).symm.trans hb
        exact fit_of_follows rfl nofun hs.unstaged rfl ⟨hnone, _, rfl, rfl⟩

theorem sound_maybeCommitSubscriberTerminal {otherwise : Outcome} (hs : e.Subscribes p)
    (hreject : Sound slack e ∨ ∀ terminal, p.terminal = some terminal → ∃ request,
      p.terminalRequest terminal = some request ∧
      request.validate e.config.maxCursorBytes p.limits = .ok ())
    (hotherwise : Safe slack otherwise e) :
    Safe slack (e.maybeCommitSubscriberTerminal otherwise) e := by
  unfold maybeCommitSubscriberTerminal
  split
  · rename_i hany
    rw [hs.held] at hany
    simp only [Option.any_some, Bool.and_eq_true, Option.isNone_iff_eq_none] at hany
    obtain ⟨hterminal, hpending⟩ := hany
    refine sound_commitSubscriberTerminal hs (.inr hpending) (hreject.imp_right fun h => ?_)
    cases ht : p.terminal with
    | none =>
      rw [ht] at hterminal
      cases hterminal
    | some terminal => exact ⟨terminal, (h terminal ht).imp fun _ h => ⟨rfl, h⟩⟩
  · exact hotherwise

theorem sound_readSubscriberTerminal (hundelayed : e.retryDue = none) (hs : e.Subscribes p)
    (hneeds : Needs False p .readingSubscriberTerminal) :
    Safe slack e.readSubscriberTerminal e := by
  obtain ⟨hpending, terminal, hterminal, hrequest⟩ := hneeds
  obtain ⟨request, hrequest⟩ := Option.isSome_iff_exists.mp hrequest
  unfold readSubscriberTerminal
  rw [hs.held, Option.bind_some, hterminal]
  dsimp only
  rw [hrequest]
  dsimp only
  split
  · exact sound_expireSubscriberTerminal hs
  refine sound_ask rfl hundelayed hs.shut (fun _ _ => rfl)
    (fun _ => ⟨control_clampOperation _, rfl⟩)
    (fun _ => ?_) hs.steady fun _ => sound_expireSubscriberTerminal { hs with }
  exact fit_of_follows rfl nofun hs.unstaged hs.held ⟨hpending, terminal, hterminal, hrequest ▸ rfl⟩

/-- What a subscription needs does not depend on its end, once it is registered. -/
theorem Needs.begin {loose : Prop} (h : Needs loose p stage) (hregistration : p.registration ≠ none)
    (hterminal : p.terminal = none) (terminal : TerminalProgress) :
    Needs loose { p with terminal := some terminal } stage := by
  cases stage
  case readingCurrentSubscriber => exact absurd h.2.1 hregistration
  case terminatingSubscriber =>
      obtain ⟨-, _, ht, -⟩ := h
      cases hterminal.symm.trans ht
  case readingSubscriberTerminal =>
      obtain ⟨-, _, ht, -⟩ := h
      cases hterminal.symm.trans ht
  all_goals exact h

theorem Fit.begin {d : Data} {loose : Prop} (h : Fit d loose stage) (hp : d.subscription = some p)
    (hregistration : p.registration ≠ none) (hterminal : p.terminal = none)
    (terminal : TerminalProgress) :
    Fit { d with subscription := some { p with terminal := some terminal } } loose stage where
  __ := h
  needs hs := by
    obtain ⟨q, hq, hneeds⟩ := h.needs hs
    cases hp.symm.trans hq
    exact ⟨_, rfl, Needs.begin hneeds hregistration hterminal terminal⟩
  delivering hs := by
    refine (h.delivering hs).imp_right ?_
    rintro ⟨batch, q, hbatch, hq, hkept⟩
    cases hp.symm.trans hq
    exact ⟨batch, _, hbatch, rfl, hkept⟩

section

variable (h : Sound slack e)

include h

/-- A session with a subscription never serves. -/
theorem Sound.subscribes (hp : e.subscription = some p) : e.Subscribes p := by
  refine ⟨Bool.eq_false_of_not_eq_true fun hready => ?_, h.2, hp⟩
  cases (h.named hp).symm.trans (h.open hready).protocol

theorem sound_beginSubscriberTerminal (requestId : List UInt8) (due : Time) :
    Safe slack (e.beginSubscriberTerminal requestId due) e := by
  unfold beginSubscriberTerminal
  split
  · exact still h rfl
  rename_i hcond
  split
  · exact still h rfl
  rename_i p hp
  have hs := h.subscribes hp
  split
  · exact still h rfl
  rename_i hregistered
  split
  · exact still h rfl
  rename_i hbounds
  simp only [not_or, Nat.not_lt, Bool.not_eq_true] at hregistered hbounds
  have hterminal : p.terminal = none := eq_none_of_isSome hbounds.1
  have hs' := hs.hold (q := { p with terminal := some ⟨requestId, due, none, none⟩ })
    { hs.kept with
      terminal := fun _ ht => Option.some.inj ht ▸ ⟨⟨hbounds.2.1, hbounds.2.2⟩, nofun⟩ }
  have hfit {loose : Prop} {stage : Stage} (hfit : Fit e.data loose stage) :=
    Fit.begin hfit hp hregistered.1 hterminal ⟨requestId, due, none, none⟩
  have hsound : Sound slack { e with
      subscription := some { p with terminal := some ⟨requestId, due, none, none⟩ },
        retries := 0 } := by
    exact ⟨h.1.map hfit id fun _ => id, hs'.steady⟩
  dsimp only
  split
  · rename_i hwhen
    refine sound_commitSubscriberTerminal { hs' with } ?_ (.inl hsound)
    rcases hwhen with hguarded | ⟨-, hpending⟩
    · obtain ⟨-, q, hq, hneeds⟩ := h.guarded hguarded
      cases hp.symm.trans hq.held
      exact hneeds.1
    · exact .inr hpending
  · exact .some ⟨fun _ => hsound, .quiet rfl rfl⟩

/-- A session that has not begun anything. -/
theorem sound_subscribe (stage : Stage) (p : SubscriptionProgress) (hmode : e.mode = .eventComplete)
    (hstage : e.stage = .unready)
    (hfollows : stage.follows = true) (hwaits : stage.waits = true)
    (happlying : stage ≠ .applyingSubscriber)
    (hneeds : Needs False p stage) (hkept : Kept e.scope e.config p)
    {timer : SessionEngine → Option Time}
    {commit : SessionEngine → SessionEngine} {effect : Operation → Effect}
    (heffect : ∀ op c, (effect op).issues? c = some op)
    (hcontrol : ∀ x, (commit x).control = x.control ∧ (commit x).base = x.base)
    (hdata : ∀ x, (commit x).data =
      { x.data with subscription := some p, protocol := .namedSubscription })
    (hframe : ∀ x, (commit x).frame =
      { x.frame with subscription := some p, protocol := .namedSubscription }) :
    Safe slack (e.ask stage (reject · .exhausted) timer commit effect) e := by
  have hsnapshot : e.snapshot = none := by
    cases hn : e.snapshot with
    | none => rfl
    | some q => cases hmode.symm.trans (h.2.staged (hn ▸ rfl : e.snapshot.isSome = true)).1
  refine sound_ask hwaits (h.undelayed (hstage ▸ nofun)) (h.shut (hstage ▸ nofun)) heffect hcontrol
    (fun _ => ?_) ?_ fun _ => still h rfl
  · rw [hdata]
    exact fit_of_follows hfollows happlying hsnapshot rfl hneeds
  rw [hframe]
  refine ⟨h.2.scope, fun _ => hmode, fun _ => rfl, ?_, fun _ hp => Option.some.inj hp ▸ hkept⟩
  exact fun hs => nomatch (congrArg Option.isSome hsnapshot).symm.trans hs

theorem sound_startDetachedSubscriberTerminal (key : SubscriberKey) (requestId : List UInt8)
    (due : Time) (limits : SubscriptionLimits) :
    Safe slack (e.startDetachedSubscriberTerminal key requestId due limits) e := by
  unfold startDetachedSubscriberTerminal
  split
  · exact still h rfl
  rename_i hcond
  simp only [not_or, not_not] at hcond
  split
  · exact still h rfl
  rename_i hscope
  split
  · exact still h rfl
  rename_i hlimits
  split
  · exact still h rfl
  rename_i hbounds
  simp only [not_or, Nat.not_lt, Bool.not_eq_true] at hbounds
  refine sound_subscribe h .readingCurrentSubscriber
    ⟨none, none, some key, limits, none, none, none, none, some ⟨requestId, due, none, none⟩⟩
    hcond.1 hcond.2.2.1 rfl rfl nofun ?_ ?_ (fun _ _ => rfl) (fun x => ?_) (fun _ => rfl)
      fun _ => rfl
  · exact ⟨rfl, rfl, .inl ⟨rfl, rfl⟩⟩
  · refine ⟨hlimits, nofun, nofun, ?_, nofun, nofun, nofun, ?_⟩
    · rintro _ ⟨⟩
      exact Decidable.of_not_not hscope
    · rintro _ ⟨⟩
      exact ⟨⟨hbounds.2.2.1, hbounds.2.2.2⟩, nofun⟩
  · exact ⟨control_clampOperation (e := x) due, rfl⟩

/-- Only a session that has not begun anything subscribes, and only within its scope. -/
theorem sound_opening {key : SubscriberKey} {reason : Reject}
    (hgo : e.mode = .eventComplete → e.stage = .unready → key.scope = e.scope → Safe slack o e) :
    Safe slack (if e.subscribes = false then reject e .stage
      else if key.scope ≠ e.scope then reject e reason else o) e := by
  split
  · exact still h rfl
  rename_i hcond
  split
  · exact still h rfl
  rename_i hscope
  simp only [subscribes, Bool.not_eq_false, Bool.and_eq_true, decide_eq_true_eq] at hcond
  exact hgo hcond.1.1.1 hcond.1.2 (Decidable.of_not_not hscope)

theorem sound_startSubscription (request : RegisterSubscriber) (limits : SubscriptionLimits) :
    Safe slack (e.startSubscription request limits) e := by
  refine sound_opening h fun hmode hstage hscope => ?_
  split
  · exact still h rfl
  rename_i hvalid
  refine sound_subscribe h .registering
    ⟨some request, none, none, limits, none, none, none, none, none⟩ hmode hstage rfl rfl nofun
    ⟨rfl, rfl⟩ ?_ (fun _ _ => rfl) (fun _ => ⟨rfl, rfl⟩) (fun _ => rfl) fun _ => rfl
  exact ⟨(RegisterSubscriber.limits_of_validate hvalid).1, fun _ hr => Option.some.inj hr ▸ hscope,
    nofun, nofun, nofun, nofun, nofun, nofun⟩

theorem sound_resumeSubscription (request : ResumeSubscriber) (limits : SubscriptionLimits) :
    Safe slack (e.resumeSubscription request limits) e := by
  refine sound_opening h fun hmode hstage hscope => ?_
  split
  · exact still h rfl
  rename_i hvalid
  refine sound_subscribe h .readingCurrentSubscriber
    ⟨none, some request, none, limits, none, none, none, none, none⟩ hmode hstage rfl rfl nofun
    ⟨rfl, rfl, .inr ⟨rfl, rfl⟩⟩ ?_ (fun _ _ => rfl) (fun _ => ⟨rfl, rfl⟩) (fun _ => rfl)
    fun _ => rfl
  exact ⟨(limits_of_metadata hvalid).1, nofun, fun _ hr => Option.some.inj hr ▸ hscope, nofun,
    nofun, nofun, nofun, nofun⟩

end

theorem Answered.subscribed (ha : Answered slack e op stage) (hfollows : stage.follows = true) :
    ∃ p, e.Subscribes p ∧ Needs (stage.lingers = true ∧ e.broke = true) p stage := by
  obtain ⟨p, hp, hneeds⟩ := ha.fit.needs hfollows
  exact ⟨p, ⟨ha.shut, ha.steady, hp⟩, hneeds⟩

/-- What the operation of a subscription leaves when it is done. -/
theorem Answered.calm (ha : Answered slack e op stage) (hs : e.Subscribes p) : e.settle.Calm :=
  ⟨rfl, rfl, ha.undelayed, hs.shut, hs.attached, hs.steady⟩

/-- A subscription operation with nothing under way. -/
theorem sound_askFor (stage : Stage) (hidle : e.Idle) (hs : e.Subscribes p)
    (hfollows : stage.follows = true)
    (hwaits : stage.waits = true) (happlying : stage ≠ .applyingSubscriber)
    (hneeds : Needs (e.broke = true) p stage)
    {timer : SessionEngine → Option Time} {commit : SessionEngine → SessionEngine}
    {effect : Operation → Effect} (heffect : ∀ op c, (effect op).issues? c = some op)
    (hcommit : ∀ x, (commit x).control = x.control ∧ (commit x).base = x.base ∧
      (commit x).data = x.data ∧ (commit x).frame = x.frame) :
    Safe slack (e.ask stage (giveUp .retryExhausted) timer commit effect) e := by
  refine sound_ask hwaits hidle.undelayed hs.shut heffect
    (fun x => ⟨(hcommit x).1, (hcommit x).2.1⟩) (fun hfunded => ?_) ?_ fun _ => ?_
  · rw [(hcommit _).2.2.1]
    exact fit_of_follows hfollows happlying hs.unstaged hs.held
      (hneeds.mono fun hb => nomatch hfunded.symm.trans hb)
  · rw [(hcommit _).2.2.2]
    exact hs.steady
  · exact sound_giveUp ⟨hidle.out, hidle.due, hidle.undelayed, hs.shut, hs.attached, hs.steady⟩ rfl

section

variable (h : Sound slack e)

include h

theorem sound_refuseCurrent (ha : Answered slack e op stage) (hs : e.Subscribes p)
    (error : SubscriptionError) : Safe slack (e.refuseCurrent error) e := by
  unfold refuseCurrent
  split
  · exact still (.rest { ha.calm hs with } rfl) rfl
  · exact still h rfl

theorem sound_detachedSubscriberCurrentRead (state : Option SourceSubscriberState) :
    Safe slack (e.detachedSubscriberCurrentRead op state) e := by
  unfold detachedSubscriberCurrentRead
  refine h.matched fun ha => ?_
  obtain ⟨p, hs, hpending, hregistration, -⟩ := ha.subscribed rfl
  rw [hs.held]
  dsimp only
  split
  · rename_i key terminal hkey hterminal
    split
    · exact sound_refuseCurrent h ha hs _
    rename_i state
    split
    · exact sound_refuseCurrent h ha hs _
    split
    · exact still h rfl
    rename_i hvalid
    have hkept : Kept e.scope e.config { p with
        sourceAck := some state.acknowledged
        terminal := some { terminal with
          request := some ⟨key, state.epoch, state.acknowledged, terminal.requestId, .unsubscribed⟩
            } } :=
      { hs.kept with
        acked := fun _ _ hr => nomatch hregistration.symm.trans hr
        pending := fun _ hq => nomatch hpending.symm.trans hq
        terminal := fun _ ht => Option.some.inj ht ▸
          ⟨(hs.kept.terminal terminal hterminal).1, fun _ hr => Option.some.inj hr ▸ hvalid⟩ }
    exact sound_commitSubscriberTerminal { hs.hold hkept with } (.inr hpending)
      (.inr ⟨_, _, rfl, rfl, hvalid⟩)
  · exact still h rfl

theorem sound_subscriberTerminalCommitted (receipt : TerminalReceipt) :
    Safe slack (e.subscriberTerminalCommitted op receipt) e := by
  unfold subscriberTerminalCommitted
  split
  · exact still h rfl
  split
  · exact still h rfl
  rename_i p hp
  have hs := h.subscribes hp
  split
  · exact still h rfl
  rename_i terminal hterminal
  split
  · exact still h rfl
  split
  · exact still h rfl
  have hkept : Kept e.scope e.config
      { p with terminal := some { terminal with receipt := some receipt } } :=
    { hs.kept with terminal := fun _ ht =>
      Option.some.inj ht ▸ hs.kept.terminal terminal hterminal }
  exact still (.rest ⟨rfl, rfl, rfl, hs.shut, hs.attached, (hs.hold hkept).steady⟩ rfl) rfl

theorem sound_subscriberTerminalRead (receipt : Option TerminalReceipt) :
    Safe slack (e.subscriberTerminalRead op receipt) e := by
  unfold subscriberTerminalRead
  refine h.matched fun ha => ?_
  split
  · exact sound_subscriberTerminalCommitted h _
  · obtain ⟨p, hs, hpending, -⟩ := ha.subscribed rfl
    exact sound_commitSubscriberTerminal hs (.inr hpending) (.inl h)

theorem sound_currentSubscriberRead (state : Option SourceSubscriberState) :
    Safe slack (e.currentSubscriberRead op state) e := by
  unfold currentSubscriberRead
  refine h.matched fun ha => ?_
  obtain ⟨p, hs, hpending, hregistration, -⟩ := ha.subscribed rfl
  rw [hs.held]
  dsimp only
  split
  · exact sound_detachedSubscriberCurrentRead h state
  split
  · exact still h rfl
  · exact sound_refuseCurrent h ha hs _
  rename_i resume state hresume
  split
  · exact sound_refuseCurrent h ha hs _
  have hkept : Kept e.scope e.config { p with
      request := some ⟨resume.key, resume.incarnation, state.acknowledged, resume.policy,
        resume.requestId, some state.epoch.ordinal, none⟩ } :=
    { hs.kept with request := fun _ hr => Option.some.inj hr ▸ hs.kept.resume resume hresume }
  exact sound_askFor (e := { e.settle with subscription := some _, retries := 0 }) .registering
    ⟨rfl, rfl, ha.undelayed⟩ { hs.hold hkept with } rfl rfl nofun ⟨hpending, rfl⟩ (fun _ _ => rfl)
    fun _ => ⟨rfl, rfl, rfl, rfl⟩

theorem sound_subscriberRejected (error : SubscriptionError) :
    Safe slack (e.subscriberRejected op error) e := by
  unfold subscriberRejected
  split
  · rename_i current stage p hout hp
    split
    · exact still h rfl
    have hs := h.subscribes hp
    have hs' := hs.hold (q := { p with pendingAck := none }) { hs.kept with pending := nofun }
    refine still (.rest ⟨rfl, rfl, rfl, hs.shut, hs.attached, hs'.steady⟩ ?_) rfl
    cases error <;> rfl
  · exact still h rfl

theorem sound_acceptRegistration (hstage : stage = .registering ∨ stage = .readingRegistration)
    (receipt : RegisterReceipt) :
    Safe slack (e.acceptRegistration op stage receipt) e := by
  unfold acceptRegistration
  refine h.matched fun ha => ?_
  obtain ⟨p, hs, hneeds⟩ := ha.subscribed (by rcases hstage with rfl | rfl <;> rfl)
  have hpending : p.pendingAck = none := by rcases hstage with rfl | rfl <;> exact hneeds.1
  rw [hs.held]
  dsimp only
  split
  · exact still h rfl
  rename_i request hrequest
  split
  · exact still h rfl
  rename_i hvalid
  obtain ⟨hkey, hname, hnative, hnativeLe, hhistory, hguarded⟩ :=
    RegisterReceipt.registered_of_validate hvalid
  have hscope : receipt.key.scope = e.scope := hkey ▸ hs.kept.request request hrequest
  have hkept : Kept e.scope e.config
      { p with sourceAck := some receipt.guarded, registration := some receipt } :=
    { hs.kept with
      registration := fun _ hr => Option.some.inj hr ▸ ⟨hscope, hkey ▸ hname, hnative, hnativeLe⟩
      acked := fun _ _ hr ha => Option.some.inj hr ▸ Option.some.inj ha ▸
        ⟨hhistory, hs.kept.request request hrequest ▸ hguarded⟩
      pending := fun _ hq => nomatch hpending.symm.trans hq }
  exact sound_askFor (e := { e.settle with subscription := some _, retries := 0 }) .bindingSink
    ⟨rfl, rfl, ha.undelayed⟩ { hs.hold hkept with } rfl rfl nofun ⟨hpending, rfl, rfl⟩
    (fun _ _ => rfl) fun _ => ⟨rfl, rfl, rfl, rfl⟩

theorem sound_subscriberRegistrationRead (receipt : Option RegisterReceipt) :
    Safe slack (e.subscriberRegistrationRead op receipt) e := by
  unfold subscriberRegistrationRead
  refine h.matched fun ha => ?_
  split
  · exact sound_acceptRegistration h (.inr rfl) _
  obtain ⟨p, hs, hneeds⟩ := ha.subscribed rfl
  split
  · exact still h rfl
  · exact sound_askFor (e := e.settle) .registering ⟨rfl, rfl, ha.undelayed⟩
      { hs with } rfl rfl nofun hneeds (fun _ _ => rfl) fun _ => ⟨rfl, rfl, rfl, rfl⟩

theorem sound_sinkEpochBound (checkpoint : FencedCheckpoint)
    (sourceToSink sinkToHead : BoundComparison) :
    Safe slack (e.sinkEpochBound op checkpoint sourceToSink sinkToHead) e := by
  unfold sinkEpochBound
  refine h.matched fun ha => ?_
  obtain ⟨p, hs, hpending, hregistration, hsourceAck⟩ := ha.subscribed rfl
  rw [hs.held]
  dsimp only
  split
  · exact still h rfl
  split
  · exact still h rfl
  split
  · exact still h rfl
  have hs' := hs.hold (q := { p with sink := some checkpoint }) { hs.kept with }
  have hsound : Sound slack { e.settle with
      subscription := some { p with sink := some checkpoint }
      checkpoint := some checkpoint.cursor
      materialized := some checkpoint.cursor
      stage := .guarded
      tailDue := e.now
      retryDue := none
      retries := 0 } :=
    sound_guarded ⟨rfl, rfl, rfl⟩ { hs' with } rfl ⟨.inr hpending, hregistration, hsourceAck, rfl⟩
  exact sound_maybeCommitSubscriberTerminal { hs' with } (.inl hsound)
    (.some ⟨fun _ => hsound, .quiet rfl rfl⟩)

end

theorem outstanding_of_failing (h : e.failing op = some stage) :
    e.outstanding = some (op, stage) := by
  unfold failing at h
  obtain ⟨⟨current, stage'⟩, hout, h⟩ := Option.bind_eq_some_iff.mp h
  dsimp only at h
  split at h
  · rename_i hop
    cases h
    rw [hout, ← hop]
  · cases h

/-- The stages of registration, and where a failure there leads. -/
theorem sound_failSubscription (h : Sound slack e) (ho : e.failSubscription op = some o) :
    Safe slack o e := by
  unfold failSubscription at ho
  split at ho
  · cases ho
  rename_i stage hfailing
  have ha := h.answered (outstanding_of_failing hfailing)
  obtain ⟨target, htarget, rfl⟩ := Option.map_eq_some_iff.mp ho
  split
  · exact still h rfl
  split at htarget
  iterate 4
    cases htarget
    obtain ⟨p, hs, hneeds⟩ := ha.subscribed rfl
    exact sound_retryLater ha.undelayed hs rfl nofun hneeds
  cases htarget

theorem sound_retrySubscription (hidle : e.Idle) (hs : e.Subscribes p)
    (hneeds : Needs (e.broke = true) p e.retryTarget.stage)
    (htarget : e.retryTarget = .subscriptionCurrentRead ∨ e.retryTarget = .subscriptionReadback ∨
      e.retryTarget = .subscriptionBind) :
    Safe slack e.retrySubscription e := by
  unfold retrySubscription
  rcases htarget with htarget | htarget | htarget <;> rw [htarget] at hneeds ⊢ <;> rw [hs.held]
  · have hkey : ∃ key, p.detachedKey.or (p.resume.map ResumeSubscriber.key) = some key := by
      rcases hneeds.2.2 with ⟨hkey, -⟩ | ⟨hnone, hresume⟩
      · obtain ⟨key, hkey⟩ := Option.isSome_iff_exists.mp hkey
        exact ⟨key, by rw [hkey]; rfl⟩
      · obtain ⟨resume, hresume⟩ := Option.isSome_iff_exists.mp hresume
        exact ⟨resume.key, by rw [hnone, hresume]; rfl⟩
    obtain ⟨key, hkey⟩ := hkey
    dsimp only [Option.bind_some]
    rw [hkey]
    refine sound_askFor .readingCurrentSubscriber hidle hs rfl rfl nofun hneeds (fun _ _ => rfl)
      fun x => ?_
    split
    · exact ⟨rfl, rfl, rfl, rfl⟩
    · exact ⟨control_clampOperation _, rfl, rfl, rfl⟩
  · obtain ⟨request, hrequest⟩ := Option.isSome_iff_exists.mp hneeds.2
    dsimp only [Option.bind_some]
    rw [hrequest]
    exact sound_askFor .readingRegistration hidle hs rfl rfl nofun hneeds (fun _ _ => rfl)
      fun _ => ⟨rfl, rfl, rfl, rfl⟩
  · obtain ⟨registration, hregistration⟩ := Option.isSome_iff_exists.mp hneeds.2.1
    dsimp only [Option.bind_some]
    rw [hregistration]
    exact sound_askFor .bindingSink hidle hs rfl rfl nofun hneeds (fun _ _ => rfl)
      fun _ => ⟨rfl, rfl, rfl, rfl⟩

theorem sound_pollSubscriber (h : Sound slack e) : Safe slack e.pollSubscriber e := by
  unfold pollSubscriber
  split
  · exact still h rfl
  rename_i hcond
  simp only [not_or, not_not] at hcond
  obtain ⟨hidle, p, hs, hneeds⟩ := h.guarded hcond.2
  rw [hs.held]
  dsimp only
  split
  · exact sound_askFor .checkingSubscriberTail hidle hs rfl rfl nofun hneeds (fun _ _ => rfl)
      fun _ => ⟨rfl, rfl, rfl, rfl⟩
  · exact still h rfl

theorem sound_scanSubscriber (hidle : e.Idle) (hs : e.Subscribes p)
    (hneeds : Needs (e.broke = true) p .scanningSubscriber) : Safe slack e.scanSubscriber e := by
  obtain ⟨registration, hregistration⟩ := Option.isSome_iff_exists.mp hneeds.2.1
  obtain ⟨start, hstart⟩ := Option.isSome_iff_exists.mp hneeds.2.2.1
  unfold scanSubscriber
  rw [hs.held]
  dsimp only
  rw [hregistration, hstart]
  exact sound_askFor .scanningSubscriber hidle hs rfl rfl nofun hneeds (fun _ _ => rfl)
      fun _ => ⟨rfl, rfl, rfl, rfl⟩

theorem outstanding_of_acceptSubscriberTail {proof : SourceProof}
    {comparisons : List BoundComparison} {orders : Comparison × Comparison}
    (h : e.acceptSubscriberTail op proof comparisons = .ok orders) :
    e.outstanding = some (op, .checkingSubscriberTail) := by
  unfold acceptSubscriberTail at h
  split at h
  · cases h
  · exact outstanding_of_matchesOp ‹_›

theorem sound_subscriberTail (h : Sound slack e) (proof : SourceProof)
    (comparisons : List BoundComparison) :
    Safe slack (e.subscriberTail op proof comparisons) e := by
  unfold subscriberTail
  split
  · exact still h rfl
  rename_i haccept
  have ha := h.answered (outstanding_of_acceptSubscriberTail haccept)
  obtain ⟨p, hs, hneeds⟩ := ha.subscribed rfl
  have hneeds : Needs (e.broke = true) p .checkingSubscriberTail := hneeds.mono fun hb => hb.2
  split
  · exact .some ⟨fun _ => .rest { ha.calm hs with } rfl, .quiet rfl rfl⟩
  refine sound_maybeCommitSubscriberTerminal { hs with } (.inr fun terminal hterminal => ?_) ?_
  · -- the request was made of what was checked before
    obtain ⟨registration, hregistration⟩ := Option.isSome_iff_exists.mp hneeds.2.1
    obtain ⟨start, hstart⟩ := Option.isSome_iff_exists.mp hneeds.2.2.1
    exact SubscriptionProgress.terminalRequest_validate h.2 hs.held hterminal hregistration hstart
  · split
    · exact sound_scanSubscriber ⟨rfl, rfl, ha.undelayed⟩ { hs with } hneeds
    split
    · exact .some ⟨fun _ => .rest { ha.calm hs with } rfl, .quiet rfl rfl⟩
    · exact .some ⟨fun _ => sound_guarded ⟨rfl, rfl, ha.undelayed⟩ { hs with } rfl hneeds,
        .quiet rfl rfl⟩

theorem acceptSubscriberBatch_spec {batch : Batch} {registration : RegisterReceipt} {sink : Cursor}
    (h : e.acceptSubscriberBatch op batch = .ok (registration, sink)) :
    e.outstanding = some (op, .scanningSubscriber) ∧ ∃ p, e.subscription = some p ∧
      p.registration = some registration ∧
        batch.coverage.through.history = registration.epoch.history ∧
      batch.coverage.through.validate e.scope e.config.maxCursorBytes = .ok () := by
  unfold acceptSubscriberBatch at h
  split at h
  · cases h
  rename_i hm
  split at h
  · cases h
  rename_i p hp
  split at h
  · rename_i hregistration _ _
    split at h
    · cases h
    rename_i hcoverage
    split at h
    · cases h
    rename_i hvalid
    split at h
    · cases h
    split at h
    · cases h
    cases h
    simp only [not_or, not_not] at hcoverage
    exact ⟨outstanding_of_matchesOp hm, p, hp, hregistration, hcoverage.2.2.2.2, hvalid⟩
  · cases h

theorem sound_subscriberScanned (h : Sound slack e) (batch : Batch)
    (hslack : e.broke = true → slack) :
    Safe slack (e.subscriberScanned op batch) e := by
  unfold subscriberScanned
  split
  · exact still h rfl
  rename_i registration sink haccept
  obtain ⟨hout, p, hp, hregistration, hhistory, hvalid⟩ := acceptSubscriberBatch_spec haccept
  have ha := h.answered hout
  obtain ⟨q, hs, hneeds⟩ := ha.subscribed rfl
  cases hp.symm.trans hs.held
  refine sound_ask rfl ha.undelayed ha.shut (fun _ _ => rfl) (fun _ => ⟨rfl, rfl⟩)
    (fun hfunded => ?_) h.2 fun hb => still ?_ rfl
  · refine ⟨nofun, fun _ => hs.attached, nofun, fun _ => ⟨p, hp, hneeds.mono fun hb => ?_⟩,
      fun _ => .inr ?_⟩
    · cases hfunded.symm.trans hb.2
    refine ⟨batch, p, rfl, hp, fun _ hr => ?_, hvalid⟩
    cases hregistration.symm.trans hr
    exact hhistory
  · exact ha.linger (hslack hb) rfl hb rfl (ha.fit.mono fun _ => trivial) h.2

theorem acceptDelivery_spec {receipt : DurableDeliveryReceipt}
    {throughToSink previousToSink : BoundComparison} {sink : FencedCheckpoint}
    {request : CommitSubscriberAck}
    (h : e.acceptDelivery op receipt throughToSink previousToSink = .ok (p, sink, request)) :
    e.outstanding = some (op, .applyingSubscriber) ∧ e.subscription = some p ∧
      ∃ batch registration start proof, e.pendingBatch = some batch ∧
        p.registration = some registration ∧ p.sourceAck = some start ∧ e.proof = some proof ∧
        request = ⟨registration.key, registration.epoch, start, batch.coverage.through, proof.id,
          receipt.ackRequestId⟩ := by
  unfold acceptDelivery at h
  split at h
  · cases h
  rename_i hm
  split at h
  · rename_i batch p' hbatch hp
    split at h
    · rename_i registration sink' start proof hregistration hsink hstart hproof
      split at h
      · cases h
      dsimp only at h
      split at h
      · cases h
      cases h
      exact ⟨outstanding_of_matchesOp hm, hp, batch, registration, start, proof, hbatch,
        hregistration, hstart, hproof, rfl⟩
    · cases h
  · cases h

theorem sound_subscriberApplied (h : Sound slack e) (receipt : DurableDeliveryReceipt)
    (throughToSink previousToSink : BoundComparison) (hslack : e.broke = true → slack) :
    Safe slack (e.subscriberApplied op receipt throughToSink previousToSink) e := by
  unfold subscriberApplied
  split
  · exact still h rfl
  rename_i p sink request haccept
  obtain ⟨hout, hp, batch, registration, start, proof, hbatch, hregistration, hstart, -, rfl⟩ :=
    acceptDelivery_spec haccept
  have ha := h.answered hout
  obtain ⟨q, hs, hneeds⟩ := ha.subscribed rfl
  cases hp.symm.trans hs.held
  -- the batch is there, so it was not given up before
  have hbatchKept : batch.coverage.through.history = registration.epoch.history ∧
      batch.coverage.through.validate e.scope e.config.maxCursorBytes = .ok () := by
    rcases ha.fit.delivering rfl with ⟨-, hnone⟩ | ⟨batch', p', hbatch', hp', hhistory, hvalid⟩
    · cases hbatch.symm.trans hnone
    cases hbatch.symm.trans hbatch'
    cases hp.symm.trans hp'
    exact ⟨hhistory registration hregistration, hvalid⟩
  have hkept : Kept e.scope e.config { p with
      sink := some { sink with cursor := receipt.sinkCursor }
      pendingAck :=
        some ⟨registration.key, registration.epoch, start, batch.coverage.through, proof.id,
        receipt.ackRequestId⟩ } :=
    { hs.kept with
      pending := fun _ hq => Option.some.inj hq ▸
        ⟨registration, hregistration, rfl, rfl, hstart, hbatchKept.1, hbatchKept.2⟩ }
  have hsteady := (hs.hold hkept).steady
  have hregistered : p.registration.isSome = true := hregistration ▸ rfl
  have hstarted : p.sourceAck.isSome = true := hstart ▸ rfl
  refine sound_ask rfl ha.undelayed ha.shut (fun _ _ => rfl) (fun _ => ⟨rfl, rfl⟩)
    (fun _ => ?_) hsteady fun hb => still ?_ rfl
  · exact fit_of_follows rfl nofun hs.unstaged rfl ⟨rfl, hregistered, hstarted, rfl⟩
  refine ha.linger (hslack hb) rfl hb rfl ?_ hsteady
  refine ⟨nofun, fun _ => hs.attached, nofun,
    fun _ => ⟨_, rfl, .inl trivial, hregistered, hstarted, rfl⟩, ?_⟩
  exact fun _ => .inl ⟨trivial, rfl⟩

theorem sound_subscriberAcked (h : Sound slack e) (receipt : SubscriberAckReceipt)
    (hstage : stage = .ackingSubscriber ∨ stage = .readingSubscriberAck) :
    Safe slack (e.subscriberAcked op receipt stage) e := by
  unfold subscriberAcked
  refine h.matched fun ha => ?_
  obtain ⟨p, hs, hneeds⟩ := ha.subscribed (by rcases hstage with rfl | rfl <;> rfl)
  obtain ⟨hregistered, hsink⟩ : p.registration.isSome = true ∧ p.sink.isSome = true := by
    rcases hstage with rfl | rfl <;> exact ⟨hneeds.2.1, hneeds.2.2.2⟩
  rw [hs.held]
  dsimp only
  split
  · exact still h rfl
  rename_i request hrequest
  split
  · exact still h rfl
  obtain ⟨registration, hregistration, -, -, -, hhistory, hvalid⟩ :=
    hs.kept.pending request hrequest
  have hkept : Kept e.scope e.config
      { p with sourceAck := some request.through, pendingAck := none } :=
    { hs.kept with
      acked := fun r a hr ha => by
        cases hregistration.symm.trans hr
        cases ha
        exact ⟨hhistory, hvalid⟩
      pending := nofun }
  have hs' := hs.hold hkept
  have hsound : Sound slack { e.settle with
      subscription := some { p with sourceAck := some request.through, pendingAck := none }
      retries := 0
      stage := .guarded } :=
    sound_guarded ⟨rfl, rfl, ha.undelayed⟩ { hs' with } rfl ⟨.inr rfl, hregistered, rfl, hsink⟩
  exact sound_maybeCommitSubscriberTerminal { hs' with } (.inl hsound) (sound_pollSubscriber hsound)

theorem sound_subscriberAckRead (h : Sound slack e) (receipt : Option SubscriberAckReceipt)
    (hslack : e.broke = true → slack) :
    Safe slack (e.subscriberAckRead op receipt) e := by
  unfold subscriberAckRead
  refine h.matched fun ha => ?_
  split
  · exact sound_subscriberAcked h _ (.inr rfl)
  split
  · exact still h rfl
  obtain ⟨p, hs, hneeds⟩ := ha.subscribed rfl
  refine sound_ask rfl ha.undelayed ha.shut (fun _ _ => rfl) (fun _ => ⟨rfl, rfl⟩) (fun _ => ?_) h.2
    fun hb => still ?_ rfl
  · exact fit_of_follows rfl nofun hs.unstaged hs.held hneeds
  · exact ha.linger (hslack hb) rfl hb rfl (ha.fit.mono fun _ => trivial) h.2

theorem sound_failSubscriptionDelivery (h : Sound slack e)
    (ho : e.failSubscriptionDelivery op = some o) : Safe slack o e := by
  -- what failed lets go of the batch
  have hlater (stage : Stage) (target : RetryTarget) (hfailing : e.failing op = some stage)
      (hfollows : stage.follows = true) (htarget : target.stage.follows = true)
      (hstage : target.stage ≠ .applyingSubscriber)
      (hsame : ∀ {loose p}, Needs loose p stage → Needs loose p target.stage) :
      Safe slack (retryLater { e with pendingBatch := none } target) e := by
    have ha := h.answered (outstanding_of_failing hfailing)
    obtain ⟨p, hs, hneeds⟩ := ha.subscribed hfollows
    exact sound_retryLater (e := { e with pendingBatch := none }) ha.undelayed
      { hs with } htarget hstage (hsame (hneeds.mono fun hb => hb.2))
  unfold failSubscriptionDelivery at ho
  split at ho
  · cases ho
    exact hlater .checkingSubscriberTail .subscriptionTail ‹_› rfl rfl nofun id
  · cases ho
    exact hlater .scanningSubscriber .subscriptionTail ‹_› rfl rfl nofun id
  · cases ho
    exact hlater .applyingSubscriber .subscriptionTail ‹_› rfl rfl nofun id
  · cases ho
    exact hlater .ackingSubscriber .subscriptionAckRead ‹_› rfl rfl nofun id
  · cases ho
    exact hlater .readingSubscriberAck .subscriptionAckRead ‹_› rfl rfl nofun id
  · cases ho

theorem sound_failSubscriberTerminal (h : Sound slack e)
    (ho : e.failSubscriberTerminal op = some o) : Safe slack o e := by
  unfold failSubscriberTerminal at ho
  split at ho
  · have ha := h.answered (outstanding_of_failing ‹_›)
    obtain ⟨p, hs, hneeds⟩ := ha.subscribed rfl
    split at ho
    · cases ho
      exact sound_expireSubscriberTerminal { hs with }
    split at ho
    · cases ho
      exact sound_expireSubscriberTerminal { hs with }
    · cases ho
      exact sound_readSubscriberTerminal ha.undelayed { hs with } hneeds
  · have ha := h.answered (outstanding_of_failing ‹_›)
    obtain ⟨p, hs, hneeds⟩ := ha.subscribed rfl
    split at ho
    · cases ho
      exact sound_expireSubscriberTerminal { hs with }
    split at ho
    · cases ho
      exact sound_expireSubscriberTerminal { hs with }
    split at ho
    · cases ho
      exact sound_expireSubscriberTerminal { hs with }
    · cases ho
      exact sound_expireSubscriberTerminal { hs with }
    cases ho
    exact .some ⟨fun _ => ⟨.delayed rfl rfl rfl rfl ha.shut hs.unstaged
      (fit_of_follows rfl nofun hs.unstaged hs.held hneeds), h.2⟩, .quiet rfl rfl⟩
  · cases ho

theorem sound_retrySubscriptionDelivery (hidle : e.Idle) (hs : e.Subscribes p)
    (hneeds : Needs (e.broke = true) p e.retryTarget.stage)
    (htarget : e.retryTarget = .subscriptionTail ∨ e.retryTarget = .subscriptionAckRead) :
    Safe slack e.retrySubscriptionDelivery e := by
  unfold retrySubscriptionDelivery
  split
  · rename_i htail
    rw [htail] at hneeds
    have hsound : Sound slack { e with stage := .guarded } :=
      sound_guarded ⟨hidle.out, hidle.due, hidle.undelayed⟩ { hs with } rfl hneeds
    exact sound_maybeCommitSubscriberTerminal { hs with } (.inl hsound)
      (sound_pollSubscriber hsound)
  · rename_i hread
    rw [hread] at hneeds
    obtain ⟨request, hrequest⟩ := Option.isSome_iff_exists.mp hneeds.1
    rw [hs.held, Option.bind_some, hrequest]
    exact sound_askFor .readingSubscriberAck hidle hs rfl rfl nofun hneeds (fun _ _ => rfl)
      fun _ => ⟨rfl, rfl, rfl, rfl⟩
  · rename_i htail hread
    exact (htarget.elim htail hread).elim

end SessionEngine

end Groupnet.Replication
