/-
  Rpc/EventBus.lean --- topics, their publishers and their subscribers.

  Source: rpc/ethereum/pubsub/pubsub.go (AddTopic, RemoveTopic, Subscribe, publishTopic,
  closeAllSubscribers, publishAllSubscribers).

  A step is one critical section, so that a run is an interleaving.  `AddTopic` and `Subscribe`
  take two: a check under the read lock, and a write later.  A publisher outlives its topic.
-/
import HyperPax.Lib.Transition

set_option autoImplicit false

namespace HyperPax.Rpc

open Lib Function

/-- Where a publisher is: its source is open, or closed; or it has closed its subscribers' channels
and is about to delete its topic. -/
inductive Phase where
  | running | drained | emptied
deriving DecidableEq

/-- The goroutine that publishes a topic. -/
structure Publisher where
  name : String
  phase : Phase
deriving DecidableEq

/-- A subscriber's entry: its topic, and the registration that its call of `Subscribe` found. -/
structure Subscriber where
  name : String
  registration : Nat
deriving DecidableEq

/-- A call between its check and its write. -/
inductive Call where
  | addTopic (name : String)
  | subscribe (subscriber : Subscriber)
deriving DecidableEq

/-- The maps of the bus and the goroutines.  Registrations and channels are numbered; the
identifiers of channels differ over all topics, so that one map has the channels of all. -/
structure State where
  topics : String → Option Nat
  subscribers : Nat → Option Subscriber
  publishers : Nat → Option Publisher
  calls : Nat → Option Call
  closed : Nat → Bool
  registrations : Nat
  currentUniqueID : Nat

/-- `NewEventBus`. -/
def State.new : State :=
  ⟨fun _ => none, fun _ => none, fun _ => none, fun _ => none, fun _ => false, 0, 0⟩

/-- The critical sections; `call` and `id` number the goroutine. -/
inductive Label where
  | addTopic (call : Nat) (name : String)
  | register (call : Nat)
  | removeTopic (name : String)
  | subscribe (call : Nat) (name : String)
  | insert (call : Nat)
  | unsubscribe (name : String) (channel : Nat)
  | publish (id : Nat)
  | closeSource (id : Nat)
  | closeAllSubscribers (id : Nat)
  | deleteTopic (id : Nat)

/-- The channel is one of the topic's. -/
def State.Subscribed (s : State) (name : String) (channel : Nat) : Prop :=
  (s.subscribers channel).any (·.name = name)

instance (s : State) (name : String) (channel : Nat) : Decidable (s.Subscribed name channel) :=
  inferInstanceAs (Decidable (_ = true))

/-- What a critical section does; `none` when it cannot be entered. -/
def step (s : State) : Label → Option State
  | .addTopic call name =>
    if s.calls call ≠ none then none
    -- "topic already registered"
    else if s.topics name ≠ none then s
    else some { s with calls := update s.calls call (some (.addTopic name)) }
  | .register call =>
    match s.calls call with
    | some (.addTopic name) => some { s with
        topics := update s.topics name (some s.registrations)
        publishers := update s.publishers s.registrations (some ⟨name, .running⟩)
        calls := update s.calls call none
        registrations := s.registrations + 1 }
    | _ => none
  | .removeTopic name => some { s with topics := update s.topics name none }
  | .subscribe call name =>
    if s.calls call ≠ none then none
    else match s.topics name with
      -- "topic not found"
      | none => s
      | some id => some { s with calls := update s.calls call (some (.subscribe ⟨name, id⟩)) }
  | .insert call =>
    match s.calls call with
    | some (.subscribe subscriber) => some { s with
        subscribers := update s.subscribers (s.currentUniqueID + 1) (some subscriber)
        calls := update s.calls call none
        currentUniqueID := s.currentUniqueID + 1 }
    | _ => none
  | .unsubscribe name channel =>
    if s.Subscribed name channel then
      some { s with subscribers := update s.subscribers channel none }
    else s
  | .publish id =>
    match s.publishers id with
    -- a closed source still gives what it has buffered
    | some ⟨_, .running⟩ | some ⟨_, .drained⟩ => s
    | _ => none
  | .closeSource id =>
    match s.publishers id with
    | some ⟨name, .running⟩ =>
      some { s with publishers := update s.publishers id (some ⟨name, .drained⟩) }
    | _ => none
  | .closeAllSubscribers id =>
    match s.publishers id with
    | some ⟨name, .drained⟩ => some { s with
        subscribers := fun c => if s.Subscribed name c then none else s.subscribers c
        closed := fun c => s.closed c || s.Subscribed name c
        publishers := update s.publishers id (some ⟨name, .emptied⟩) }
    | _ => none
  | .deleteTopic id =>
    match s.publishers id with
    | some ⟨name, .emptied⟩ => some { s with
        topics := update s.topics name none
        publishers := update s.publishers id none }
    | _ => none

/-- The step sends an event on the channel. -/
def Sends (s : State) : Label → Nat → Prop
  | .publish id, channel => ∃ p, s.publishers id = some p ∧ s.Subscribed p.name channel
  | _, _ => False

/-- The step registers a topic whose registration has neither been removed nor lost its source; or
a publisher closes the channel of a subscriber that found another registration; or it removes a
registration that is not its own. -/
def Fault (s : State) : Label → Prop
  | .register call => ∃ name id, s.calls call = some (.addTopic name) ∧ s.topics name = some id ∧
      s.publishers id = some ⟨name, .running⟩
  | .closeAllSubscribers id => ∃ name phase c id', s.publishers id = some ⟨name, phase⟩ ∧
      s.subscribers c = some ⟨name, id'⟩ ∧ id' ≠ id
  | .deleteTopic id => ∃ name phase id', s.publishers id = some ⟨name, phase⟩ ∧
      s.topics name = some id' ∧ id' ≠ id
  | _ => False

inductive Holder where
  | registration (id : Nat)
  | call (call : Nat)

/-- Who has a name: a registration, by the topic itself, a publisher, a subscriber or a call that is
about to insert one; or a call that is about to register it. -/
inductive State.Holds (s : State) (name : String) : Holder → Prop
  | topic {id : Nat} (h : s.topics name = some id) : s.Holds name (.registration id)
  | publisher {id : Nat} {phase : Phase} (h : s.publishers id = some ⟨name, phase⟩) :
    s.Holds name (.registration id)
  | subscriber {channel id : Nat} (h : s.subscribers channel = some ⟨name, id⟩) :
    s.Holds name (.registration id)
  | subscribing {call id : Nat} (h : s.calls call = some (.subscribe ⟨name, id⟩)) :
    s.Holds name (.registration id)
  | adding {call : Nat} (h : s.calls call = some (.addTopic name)) : s.Holds name (.call call)

/-- A topic that is not registered is added when nobody has its name any more. -/
def Orderly (s : State) : Label → Prop
  | .addTopic _ name => s.topics name = none → ∀ x, ¬ s.Holds name x
  | _ => True

/-! ## Every interleaving -/

/-- The channels of subscribers are open, and the next one is new. -/
structure State.Sound (s : State) : Prop where
  closed : ∀ c sub, s.subscribers c = some sub → s.closed c = false
  fresh : ∀ c, s.currentUniqueID < c → s.subscribers c = none ∧ s.closed c = false

variable {s s' : State} {l : Label}

theorem channels_of_step (h : step s l = some s') :
    (s'.subscribers = s.subscribers ∧ s'.closed = s.closed ∧
      s'.currentUniqueID = s.currentUniqueID) ∨
    (∃ sub, s'.subscribers = update s.subscribers (s.currentUniqueID + 1) (some sub) ∧
      s'.closed = s.closed ∧ s'.currentUniqueID = s.currentUniqueID + 1) ∨
    (∃ channel, s'.subscribers = update s.subscribers channel none ∧ s'.closed = s.closed ∧
      s'.currentUniqueID = s.currentUniqueID) ∨
    ∃ name, (s'.subscribers = fun c => if s.Subscribed name c then none else s.subscribers c) ∧
      (s'.closed = fun c => s.closed c || s.Subscribed name c) ∧
      s'.currentUniqueID = s.currentUniqueID := by
  cases l with
  | insert call =>
    simp only [step] at h
    split at h
    · cases h
      exact .inr (.inl ⟨_, rfl, rfl, rfl⟩)
    · cases h
  | unsubscribe name channel =>
    simp only [step] at h
    split at h
    · cases h
      exact .inr (.inr (.inl ⟨channel, rfl, rfl, rfl⟩))
    · cases h
      exact .inl ⟨rfl, rfl, rfl⟩
  | closeAllSubscribers id =>
    simp only [step] at h
    split at h
    · cases h
      exact .inr (.inr (.inr ⟨_, rfl, rfl, rfl⟩))
    · cases h
  | removeTopic name =>
    cases h
    exact .inl ⟨rfl, rfl, rfl⟩
  | addTopic | register | subscribe | publish | closeSource | deleteTopic =>
    -- the other sections leave the channels alone
    simp only [step] at h
    repeat' split at h
    all_goals
      cases h
      try exact .inl ⟨rfl, rfl, rfl⟩

theorem State.Sound.step (hs : s.Sound) (h : step s l = some s') : s'.Sound := by
  obtain ⟨hclosed, hfresh⟩ := hs
  rcases channels_of_step h with ⟨hsubs, hcl, hid⟩ | ⟨sub, hsubs, hcl, hid⟩ |
    ⟨channel, hsubs, hcl, hid⟩ | ⟨name, hsubs, hcl, hid⟩
  · exact ⟨by rwa [hsubs, hcl], by rwa [hsubs, hcl, hid]⟩
  · refine ⟨fun c sub' hc => ?_, fun c hc => ?_⟩
    · rw [hsubs] at hc
      rw [hcl]
      by_cases hnew : c = s.currentUniqueID + 1
      · rw [hnew]
        exact (hfresh _ (Nat.lt_succ_self _)).2
      · rw [update_of_ne hnew] at hc
        exact hclosed c sub' hc
    · rw [hid] at hc
      rw [hsubs, hcl, update_of_ne (by omega)]
      exact hfresh c (by omega)
  · refine ⟨fun c sub' hc => ?_, fun c hc => ?_⟩
    · rw [hsubs, update_apply] at hc
      split at hc
      · cases hc
      · rw [hcl]
        exact hclosed c sub' hc
    · rw [hid] at hc
      rw [hsubs, hcl, update_apply]
      split
      · exact ⟨rfl, (hfresh c hc).2⟩
      · exact hfresh c hc
  · refine ⟨fun c sub' hc => ?_, fun c hc => ?_⟩
    · rw [hsubs] at hc
      dsimp only at hc
      split at hc
      · cases hc
      · rename_i hnot
        rw [hcl]
        simp [hclosed c sub' hc, hnot]
    · rw [hid] at hc
      obtain ⟨hnone, hopen⟩ := hfresh c hc
      have hnot : ¬ s.Subscribed name c := by simp [State.Subscribed, hnone]
      rw [hsubs, hcl]
      simp [hnot, hnone, hopen]

/-! ## Orderly interleavings -/

/-- A name has one holder at a time. -/
def State.Single (s : State) : Prop :=
  ∀ name x y, s.Holds name x → s.Holds name y → x = y

theorem holds_of_step {name : String} {x : Holder} (h : step s l = some s') (hx : s'.Holds name x) :
    (s.Holds name x ∧ ∀ call, l = .register call → x ≠ .call call) ∨
    (∃ call, l = .addTopic call name ∧ s.topics name = none ∧ x = .call call) ∨
    ∃ call, l = .register call ∧ s.Holds name (.call call) ∧ x = .registration s.registrations := by
  cases l with
  | addTopic call name' =>
    simp only [step] at h
    split_ifs at h
    · cases h
      exact .inl ⟨hx, nofun⟩
    · cases h
      cases hx <;> grind [update_apply, State.Holds]
  | register call =>
    simp only [step] at h
    split at h
    · cases h
      -- the topic and its publisher are those of the new registration
      cases hx <;> grind [update_apply, State.Holds]
    · cases h
  | removeTopic name' =>
    cases h
    cases hx <;> grind [update_apply, State.Holds]
  | subscribe call name' =>
    simp only [step] at h
    split at h
    · cases h
    split at h
    · cases h
      exact .inl ⟨hx, nofun⟩
    · -- the subscriber has the registration that it found
      cases h
      cases hx <;> grind [update_apply, State.Holds]
  | insert call =>
    simp only [step] at h
    split at h
    · cases h
      cases hx <;> grind [update_apply, State.Holds]
    · cases h
  | unsubscribe name' channel =>
    simp only [step] at h
    split at h
    · cases h
      cases hx <;> grind [update_apply, State.Holds]
    · cases h
      exact .inl ⟨hx, nofun⟩
  | publish id =>
    simp only [step] at h
    split at h
    · cases h
      exact .inl ⟨hx, nofun⟩
    · cases h
      exact .inl ⟨hx, nofun⟩
    · cases h
  | closeSource id | closeAllSubscribers id | deleteTopic id =>
    simp only [step] at h
    split at h
    · cases h
      cases hx <;> grind [update_apply, State.Holds]
    · cases h

theorem State.Single.step (hs : s.Single) (hl : Orderly s l) (h : step s l = some s') :
    s'.Single := by
  intro name x y hx hy
  -- a new holder comes in when nobody has the name, or in place of the call that made it
  have hnew := hs name
  rcases holds_of_step h hx with ⟨hx, hnx⟩ | ⟨c, rfl, hfree, rfl⟩ | ⟨c, rfl, hc, rfl⟩ <;>
    rcases holds_of_step h hy with ⟨hy, hny⟩ | ⟨c', heq, hfree', rfl⟩ | ⟨c', heq, hc', rfl⟩ <;>
    grind [Orderly]

theorem State.Single.not_fault (hs : s.Single) : ¬ Fault s l := by
  cases l with
  | register call =>
    rintro ⟨name, id, hcall, htopic, -⟩
    cases hs name _ _ (.topic htopic) (.adding hcall)
  | closeAllSubscribers id =>
    rintro ⟨name, _, _, id', hp, hsub, hne⟩
    exact hne (Holder.registration.inj (hs name _ _ (.subscriber hsub) (.publisher hp)))
  | deleteTopic id =>
    rintro ⟨name, _, id', hp, htopic, hne⟩
    exact hne (Holder.registration.inj (hs name _ _ (.topic htopic) (.publisher hp)))
  | _ => exact id

/-- No interleaving sends an event on a closed channel.  In those in which a topic is only added
when nothing of an earlier registration is left, there is one publisher for a registration, and it
closes and removes only what is its own. -/
theorem one_publisher_of_orderly (s : State) (l : Label) :
    (Path step (fun _ _ => True) .new s → ∀ channel, Sends s l channel → s.closed channel = false) ∧
      (Path step Orderly .new s → ¬ Fault s l) := by
  refine ⟨fun hpath channel hsends => ?_, fun hpath => ?_⟩
  · have hsound : s.Sound := hpath.invariant (fun _ _ _ hs _ h => hs.step h)
      ⟨fun _ _ h => (by cases h), fun _ _ => ⟨rfl, rfl⟩⟩
    cases l with
    | publish id =>
      obtain ⟨p, -, hchannel⟩ := hsends
      obtain ⟨sub, hsub, -⟩ := (Option.any_eq_true _ _).mp hchannel
      exact hsound.closed channel sub hsub
    | _ => exact hsends.elim
  · refine State.Single.not_fault (hpath.invariant (fun _ _ _ hs hl h => hs.step hl h) ?_)
    rintro name x y (h | h | h | h | h) <;> cases h

/-- A topic's source closes, its publisher removes it, and it is added again. -/
theorem readded_topic_orderly : ∃ s, Path step Orderly .new s ∧ s.registrations = 2 ∧
    s.topics "logs" = some 1 ∧ ∀ l, ¬ Fault s l := by
  have hnew : Orderly State.new (.addTopic 0 "logs") := by
    rintro - x (h | h | h | h | h) <;> cases h
  have hopen : Path step Orderly .new _ :=
    (Path.single hnew rfl).trans (Path.single (l := .register 0) trivial rfl)
  have hclose := (hopen.trans (Path.single (l := .closeSource 0) trivial rfl)).trans
    (Path.single (l := .closeAllSubscribers 0) trivial rfl)
  have hdelete := hclose.trans (Path.single (l := .deleteTopic 0) trivial rfl)
  -- nobody has the name any more
  have hagain := hdelete.trans (Path.single (l := .addTopic 0 "logs") (by
    rintro - x (h | h | h | h | h) <;> grind [State.new, update_apply]) rfl)
  have hpath := hagain.trans (Path.single (l := .register 0) trivial rfl)
  exact ⟨_, hpath, rfl, rfl, fun l => (one_publisher_of_orderly _ l).2 hpath⟩

/-- Two calls of `AddTopic` pass the check before either writes. -/
theorem two_publishers : ∃ s s', Path step (fun _ _ => True) .new s ∧
    step s (.register 1) = some s' ∧ Fault s (.register 1) := by
  obtain ⟨s, hpath, hcall, htopic, hpublisher⟩ :
      ∃ s, Path step (fun _ _ => True) .new s ∧ s.calls 1 = some (.addTopic "logs") ∧
        s.topics "logs" = some 0 ∧ s.publishers 0 = some ⟨"logs", .running⟩ :=
    exists_path State.new [Label.addTopic 0 "logs", .addTopic 1 "logs", .register 0]
      (by decide +kernel)
  exact ⟨s, _, hpath, by rw [step, hcall], "logs", 0, hcall, htopic, hpublisher⟩

/-! ## Channels that are done with -/

/-- The step sends on the channel or closes it. -/
def Uses (s : State) : Label → Nat → Prop
  | .publish id, channel | .closeAllSubscribers id, channel =>
    ∃ p, s.publishers id = some p ∧ s.Subscribed p.name channel
  | _, _ => False

theorem Uses.subscriber {channel : Nat} (h : Uses s l channel) :
    ∃ sub, s.subscribers channel = some sub := by
  cases l with
  | publish | closeAllSubscribers =>
    obtain ⟨_, -, hchannel⟩ := h
    obtain ⟨sub, hsub, -⟩ := (Option.any_eq_true _ _).mp hchannel
    exact ⟨sub, hsub⟩
  | _ => exact h.elim

/-- The channel was handed out and has no entry any more. -/
def State.Done (s : State) (channel : Nat) : Prop :=
  channel ≤ s.currentUniqueID ∧ s.subscribers channel = none

theorem State.Done.step {channel : Nat} (hs : s.Done channel) (h : step s l = some s') :
    s'.Done channel := by
  obtain ⟨hle, hnone⟩ := hs
  rcases channels_of_step h with ⟨hsubs, -, hid⟩ | ⟨sub, hsubs, -, hid⟩ |
    ⟨channel', hsubs, -, hid⟩ | ⟨name, hsubs, -, hid⟩
  · exact ⟨by rwa [hid], by rwa [hsubs]⟩
  · refine ⟨by omega, ?_⟩
    rw [hsubs, update_of_ne (by omega)]
    exact hnone
  · refine ⟨by rwa [hid], ?_⟩
    rw [hsubs, update_apply]
    split
    · rfl
    · exact hnone
  · refine ⟨by rwa [hid], ?_⟩
    rw [hsubs]
    simp [hnone]

/-- No interleaving uses a channel that is closed, so that none is closed twice, or one whose
subscriber has left. -/
theorem done_for_good (s t : State) (l : Label) (channel : Nat) :
    (Path step (fun _ _ => True) .new s → Uses s l channel → s.closed channel = false) ∧
      (s.Done channel → Path step (fun _ _ => True) s t → ¬ Uses t l channel) := by
  refine ⟨fun hpath huses => ?_, fun hdone hpath huses => ?_⟩
  · have hsound : s.Sound := hpath.invariant (fun _ _ _ hs _ h => hs.step h)
      ⟨fun _ _ h => (by cases h), fun _ _ => ⟨rfl, rfl⟩⟩
    obtain ⟨sub, hsub⟩ := huses.subscriber
    exact hsound.closed channel sub hsub
  · have hafter : t.Done channel :=
      hpath.invariant (I := fun t => t.Done channel) (fun _ _ _ hs _ h => hs.step h) hdone
    obtain ⟨_, hsub⟩ := huses.subscriber
    rw [hafter.2] at hsub
    cases hsub

/-- The subscriber leaves; another one comes, and an event is published. -/
theorem done_after_unsubscribe : ∃ s t, s.Done 1 ∧ Path step (fun _ _ => True) s t ∧
    Uses t (.publish 0) 2 ∧ ¬ Uses t (.publish 0) 1 := by
  obtain ⟨s, t, -, hpath, hdone, hpublisher, hsubscribed⟩ :
      ∃ s t, Path step (fun _ _ => True) .new s ∧ Path step (fun _ _ => True) s t ∧
        (1 ≤ s.currentUniqueID ∧ s.subscribers 1 = none) ∧
        t.publishers 0 = some ⟨"logs", .running⟩ ∧ t.Subscribed "logs" 2 :=
    exists_paths_of_run State.new [Label.addTopic 0 "logs", .register 0,
        .subscribe 0 "logs", .insert 0, .unsubscribe "logs" 1]
      [Label.subscribe 0 "logs", .insert 0, .publish 0] (by decide +kernel)
  exact ⟨s, t, hdone, hpath, ⟨_, hpublisher, hsubscribed⟩, (done_for_good s t _ 1).2 hdone hpath⟩

end HyperPax.Rpc
