import VirtioBench.Vhost.Custody

/- Device sessions. `ready_` is tested once per iteration, `vid_` is loaded later
   and again at every retry, and the callbacks change the two in separate steps,
   so what the threads do depends on where the callbacks land.

   1. `reachable_frames` — what holds of the callbacks in every interleaving:
      each is for a live device, no two for the same one, `vid_` is -1 or live, and
      a `destroy_device(vid)` about to return has left `vid_` different from `vid`.
   2. `burst_calls_live` — a burst call is made on a live device as long as the
      callbacks do not pull the device from under a thread (`SafeDestroy`): no -1
      in `vid_` while `ready_` holds or a thread that saw it is yet to load `vid_`,
      no return from `destroy_device` while a loaded vid waits for its call.
      `call_on_dead_device` is a call made with -1.
   3. `sessions_kept` — a packet is accepted only in the session it came from, as
      long as `new_device` finds no packet and no call of another session in the
      pipeline (`QuietHandover`). `packet_crosses_sessions` delivers a packet of
      one guest to the next. -/
namespace VirtioBench.Vhost

variable {rule : BurstRule} {s s' : State} {a : Act}

/-! ## The callbacks -/

structure Frames (s : State) : Prop where
  live : ∀ c ∈ s.callbacks, s.session c.vid ≠ none
  distinct : (s.callbacks.map Callback.vid).Nodup
  nonneg : ∀ v, s.session v ≠ none → 0 ≤ v
  vidLive : s.vid = -1 ∨ s.session s.vid ≠ none
  cleared : ∀ v, .destroyReturn v ∈ s.callbacks → s.vid ≠ v

theorem SameEnv.frames (h : SameEnv s s') (hi : Frames s) : Frames s' := by
  obtain ⟨hl, hd, hn, hv, hc⟩ := hi
  exact ⟨by rwa [h.callbacks, h.session], by rwa [h.callbacks], by rwa [h.session],
    by rwa [h.vid, h.session], by rwa [h.callbacks, h.vid]⟩

/-- A callback moves on: the devices of the callbacks stay the same. -/
theorem map_vid_set {l : List Callback} {i : Nat} {c c' : Callback} (hi : l[i]? = some c)
    (hv : c'.vid = c.vid) : (l.set i c').map Callback.vid = l.map Callback.vid := by
  obtain ⟨hlt, rfl⟩ := List.getElem?_eq_some_iff.mp hi
  apply List.ext_getElem
  · simp
  · intro j hj hj'
    simp only [List.getElem_map, List.getElem_set]
    split
    · next hij => subst hij; exact hv
    · rfl

/-- Two callbacks in progress are for two devices. -/
theorem vid_ne_of_ne {l : List Callback} {i j : Nat} {c d : Callback}
    (hn : (l.map Callback.vid).Nodup) (hi : l[i]? = some c) (hj : l[j]? = some d) (hij : i ≠ j) :
    d.vid ≠ c.vid := by
  have hlt : i < (l.map Callback.vid).length := by
    rw [List.length_map]
    exact (List.getElem?_eq_some_iff.mp hi).1
  intro heq
  apply hij
  apply (List.getElem?_inj hlt hn).mp
  rw [List.getElem?_map, List.getElem?_map, hi, hj, Option.map_some, Option.map_some, heq]

/-- When a callback moves on, the others are for other devices. -/
theorem vid_ne_of_set {l : List Callback} {i : Nat} {c c' d : Callback} (hi : l[i]? = some c)
    (hn : (l.map Callback.vid).Nodup) (hd : d ∈ l.set i c') (hne : d ≠ c') : d.vid ≠ c.vid := by
  obtain ⟨j, hj⟩ := List.mem_iff_getElem?.mp hd
  by_cases hij : i = j
  · subst hij
    rw [List.getElem?_set_self (List.getElem?_eq_some_iff.mp hi).1] at hj
    exact (hne (Option.some.inj hj).symm).elim
  · rw [List.getElem?_set_ne hij] at hj
    exact vid_ne_of_ne hn hi hj hij

/-- When a callback returns, the others are for other devices. -/
theorem vid_ne_of_eraseIdx {l : List Callback} {i : Nat} {c d : Callback} (hi : l[i]? = some c)
    (hn : (l.map Callback.vid).Nodup) (hd : d ∈ l.eraseIdx i) : d.vid ≠ c.vid := by
  obtain ⟨j, hji, hj⟩ := List.mem_eraseIdx_iff_getElem?.mp hd
  exact vid_ne_of_ne hn hi hj (Ne.symm hji)

/-- What a callback that moves on, with no change to the sessions, has to show. -/
theorem Frames.advance (hf : Frames s) {i : Nat} {c c' : Callback}
    (hi : s.callbacks[i]? = some c) (hcb : s'.callbacks = s.callbacks.set i c') (hv : c'.vid = c.vid)
    (hs : s'.session = s.session) (hlive : s'.vid = -1 ∨ s.session s'.vid ≠ none)
    (hclr : ∀ v, .destroyReturn v ∈ s'.callbacks → s'.vid ≠ v) : Frames s' := by
  refine ⟨?_, ?_, ?_, ?_, hclr⟩
  · intro d hd
    rw [hcb] at hd
    rw [hs]
    rcases List.mem_or_eq_of_mem_set hd with hd | rfl
    · exact hf.live d hd
    · rw [hv]
      exact hf.live c (List.mem_of_getElem? hi)
  · rw [hcb, map_vid_set hi hv]
    exact hf.distinct
  · rw [hs]
    exact hf.nonneg
  · rw [hs]
    exact hlive

/-- What a callback that is called, for a device without one, has to show. -/
theorem Frames.distinct_append (hf : Frames s) {c : Callback}
    (hne : ∀ d ∈ s.callbacks, d.vid ≠ c.vid) :
    ((s.callbacks ++ [c]).map Callback.vid).Nodup := by
  rw [List.map_append, List.nodup_append]
  refine ⟨hf.distinct, by simp, ?_⟩
  intro w hw x hx
  obtain ⟨d, hd, rfl⟩ := List.mem_map.mp hw
  rw [List.mem_singleton.mp hx]
  exact hne d hd

theorem Frames.cleared_append (hf : Frames s) {c : Callback} (hc : ∀ v, c ≠ .destroyReturn v) :
    ∀ v, .destroyReturn v ∈ s.callbacks ++ [c] → s.vid ≠ v := by
  intro v hv
  rcases List.mem_append.mp hv with hv | hv
  · exact hf.cleared v hv
  · exact (hc v (List.mem_singleton.mp hv).symm).elim

/-- A callback that returns leaves both to the others. -/
theorem Frames.distinct_eraseIdx (hf : Frames s) (i : Nat) :
    ((s.callbacks.eraseIdx i).map Callback.vid).Nodup :=
  hf.distinct.sublist ((List.eraseIdx_sublist _ _).map _)

theorem Frames.cleared_eraseIdx (hf : Frames s) (i : Nat) :
    ∀ v, .destroyReturn v ∈ s.callbacks.eraseIdx i → s.vid ≠ v :=
  fun v hv => hf.cleared v (List.mem_of_mem_eraseIdx hv)

/-- A connecting device ends no session, a disconnecting one only its own. -/
theorem live_of_newDevice {v w : Int} {n : Nat} (hs : s.session v = none)
    (hw : s.session w ≠ none) : Function.update s.session v (some n) w ≠ none := by
  have hne : w ≠ v := by rintro rfl; exact hw hs
  rw [Function.update_of_ne hne]
  exact hw

theorem live_of_destroyReturn {v w : Int} (hne : w ≠ v) (hw : s.session w ≠ none) :
    Function.update s.session v none w ≠ none := by
  rw [Function.update_of_ne hne]
  exact hw

theorem EnvMove.frames (h : EnvMove s a s') (hf : Frames s) : Frames s' := by
  cases h with
  | stop => exact ⟨hf.live, hf.distinct, hf.nonneg, hf.vidLive, hf.cleared⟩
  | newDevice v hv hs =>
    have hother : ∀ c ∈ s.callbacks, c.vid ≠ v := fun c hc h0 => hf.live c hc (h0 ▸ hs)
    refine ⟨?_, hf.distinct_append hother, ?_, ?_, hf.cleared_append nofun⟩
    · intro c hc
      rcases List.mem_append.mp hc with hc | hc
      · exact live_of_newDevice hs (hf.live c hc)
      · rw [List.mem_singleton.mp hc]
        simp [Callback.vid]
    · intro w hw
      by_cases hwv : w = v
      · rw [hwv]; exact hv
      · refine hf.nonneg w ?_
        rw [← Function.update_of_ne hwv (some s.sessions) s.session]
        exact hw
    · exact hf.vidLive.imp id (live_of_newDevice hs)
  | destroyDevice v hs hc =>
    refine ⟨?_, hf.distinct_append hc, hf.nonneg, hf.vidLive, hf.cleared_append nofun⟩
    intro c hc'
    rcases List.mem_append.mp hc' with hc' | hc'
    · exact hf.live c hc'
    · rw [List.mem_singleton.mp hc']
      exact hs
  | newStoreVid i v hi =>
    refine hf.advance hi rfl rfl rfl (.inr (hf.live _ (List.mem_of_getElem? hi))) ?_
    -- a `destroy_device` about to return is for another device than this one
    intro w hw
    exact (vid_ne_of_set hi hf.distinct hw (by simp)).symm
  | newStoreReady i v hi =>
    refine ⟨?_, hf.distinct_eraseIdx i, hf.nonneg, hf.vidLive, hf.cleared_eraseIdx i⟩
    exact fun c hc => hf.live c (List.mem_of_mem_eraseIdx hc)
  | destroyMatch i v hi hv =>
    refine hf.advance hi rfl rfl rfl hf.vidLive ?_
    exact fun w hw => hf.cleared w ((List.mem_or_eq_of_mem_set hw).resolve_right nofun)
  | destroyOther i v hi hv =>
    refine hf.advance hi rfl rfl rfl hf.vidLive ?_
    intro w hw
    rcases List.mem_or_eq_of_mem_set hw with hw | hw
    · exact hf.cleared w hw
    · cases hw
      exact hv
  | destroyStoreReady i v hi =>
    refine hf.advance hi rfl rfl rfl hf.vidLive ?_
    exact fun w hw => hf.cleared w ((List.mem_or_eq_of_mem_set hw).resolve_right nofun)
  | destroyStoreVid i v hi =>
    refine hf.advance hi rfl rfl rfl (.inl rfl) ?_
    intro w hw
    -- vids are not negative, so none is the -1 just stored
    have hw0 : 0 ≤ w := by
      rcases List.mem_or_eq_of_mem_set hw with hw | hw
      · exact hf.nonneg w (hf.live _ hw)
      · cases hw
        exact hf.nonneg v (hf.live _ (List.mem_of_getElem? hi))
    show (-1 : Int) ≠ w
    omega
  | destroyReturn i v hi =>
    have hne : ∀ c ∈ s.callbacks.eraseIdx i, c.vid ≠ v :=
      fun c hc => vid_ne_of_eraseIdx hi hf.distinct hc
    refine ⟨?_, hf.distinct_eraseIdx i, ?_, ?_, hf.cleared_eraseIdx i⟩
    · exact fun c hc =>
        live_of_destroyReturn (hne c hc) (hf.live c (List.mem_of_mem_eraseIdx hc))
    · intro w (hw : Function.update s.session v none w ≠ none)
      by_cases hwv : w = v
      · rw [hwv, Function.update_self] at hw
        exact (hw rfl).elim
      · rw [Function.update_of_ne hwv] at hw
        exact hf.nonneg w hw
    · exact hf.vidLive.imp id
        (live_of_destroyReturn (hf.cleared v (List.mem_of_getElem? hi)))

theorem step_frames (hf : Frames s) (h : step rule s a = some s') : Frames s' := by
  rcases step_cases h with hp | hc | he
  · exact hp.sameEnv.frames hf
  · exact hc.sameEnv.frames hf
  · exact he.frames hf

theorem frames_init : Frames init := by
  refine ⟨?_, List.nodup_nil, ?_, .inl rfl, ?_⟩
  · intro c hc; cases hc
  · intro v hv; exact (hv rfl).elim
  · intro v hv; cases hv

/-- **Callbacks.** Live devices, one callback each, in every interleaving. -/
theorem reachable_frames (h : Reachable rule s) : Frames s :=
  h.invariant frames_init (fun _ _ _ => step_frames)

/-! ## Burst calls -/

/-- The vid loaded for the burst call the producer is about to make. -/
def ProducerPc.calling : ProducerPc → Option Int
  | .dequeueBurst vid => some vid
  | _ => none

def ConsumerPc.calling : ConsumerPc → Option Int
  | .enqueueBurst vid .. => some vid
  | _ => none

/-- The producer has seen `ready_` and is yet to load `vid_`. -/
def ProducerPc.Armed : ProducerPc → Prop
  | .loadVid => True
  | _ => False

/-- The consumer has seen `ready_` and may load `vid_` without testing it again. -/
def ConsumerPc.Armed : ConsumerPc → Prop
  | .ringDequeue | .loadVid .. | .enqueueBurst .. => True
  | _ => False

/-- The vid of the burst call that the action `a` makes. -/
def State.burstVid (s : State) : Act → Option Int
  | .rteVhostDequeueBurst _ => s.producer.calling
  | .rteVhostEnqueueBurst _ => s.consumer.calling
  | _ => none

/-- The callback in progress that the action `a` moves. -/
def State.frame (s : State) : Act → Option Callback
  | .callback i => s.callbacks[i]?
  | _ => none

/-- The callback's next access does not take the device away from a thread. -/
def Callback.Safe (s : State) : Callback → Prop
  | .newStoreReady _ => s.vid ≠ -1
  | .destroyStoreVid _ => s.ready = false ∧ ¬ s.producer.Armed ∧ ¬ s.consumer.Armed
  | .destroyReturn v => s.producer.calling ≠ some v ∧ s.consumer.calling ≠ some v
  | .newStoreVid _ | .destroyLoadVid _ | .destroyStoreReady _ => True

def SafeDestroy (s : State) (a : Act) : Prop := ∀ c ∈ s.frame a, c.Safe s

instance : (p : ProducerPc) → Decidable p.Armed
  | .loadVid => .isTrue trivial
  | .loadQuit | .loadReady | .dequeueBurst _ | .ringEnqueue .. | .retryLoadQuit .. | .exited =>
    .isFalse id

instance : (c : ConsumerPc) → Decidable c.Armed
  | .ringDequeue | .loadVid .. | .enqueueBurst .. => .isTrue trivial
  | .loadQuit | .loadReady | .freeUndelivered .. | .freeDelivered .. | .drainDequeue
  | .drainFree .. | .exited => .isFalse id

instance (s : State) : (c : Callback) → Decidable (c.Safe s)
  | .newStoreReady _ => inferInstanceAs (Decidable (_ ≠ _))
  | .destroyStoreVid _ | .destroyReturn _ => inferInstanceAs (Decidable (_ ∧ _))
  | .newStoreVid _ | .destroyLoadVid _ | .destroyStoreReady _ => .isTrue trivial

instance (s : State) (a : Act) : Decidable (SafeDestroy s a) :=
  inferInstanceAs (Decidable (∀ c ∈ s.frame a, c.Safe s))

/-- While a thread may load `vid_` it is not -1, and a loaded vid is live. -/
structure Guarded (s : State) : Prop where
  ready : s.ready = true → s.vid ≠ -1
  producer : s.producer.Armed → s.vid ≠ -1
  consumer : s.consumer.Armed → s.vid ≠ -1
  dequeue : ∀ v, s.producer.calling = some v → s.session v ≠ none
  enqueue : ∀ v, s.consumer.calling = some v → s.session v ≠ none

/-- Only a load of `vid_` prepares a call, and only `ready_` arms a thread. -/
theorem ProducerEdge.calling {p p' : ProducerPc} (h : ProducerEdge s p p') {v : Int}
    (hv : p'.calling = some v) : v = s.vid ∧ p.Armed := by
  cases h with
  | loadVid => cases hv; exact ⟨rfl, trivial⟩
  | exit | enter | ready | notReady | received | nothing | short | retry | pushed => cases hv

theorem ProducerEdge.armed {p p' : ProducerPc} (h : ProducerEdge s p p') (harm : p'.Armed) :
    s.ready = true := by
  cases h with
  | ready hr => exact hr
  | exit | enter | notReady | loadVid | received | nothing | short | retry | pushed =>
    exact harm.elim

theorem ConsumerEdge.calling {c c' : ConsumerPc} (h : ConsumerEdge s c c') {v : Int}
    (hv : c'.calling = some v) : v = s.vid ∧ c.Armed := by
  cases h with
  | loadVid pkts sent retries => cases hv; exact ⟨rfl, trivial⟩
  | leave | enter | ready | notReady | take | nothing | retry | giveUp | accepted | emptyBatch
  | freeUndelivered | undeliveredFreed | noneDelivered | freeDelivered | batchFreed | drain
  | drained | drainFree | drainFreed => cases hv

/-- `ready_` is not tested again between the tries of a batch. -/
theorem ConsumerEdge.armed {c c' : ConsumerPc} (h : ConsumerEdge s c c') (harm : c'.Armed) :
    s.ready = true ∨ c.Armed := by
  cases h with
  | ready hr => exact .inl hr
  | take | loadVid | retry => exact .inr trivial
  | leave | enter | notReady | nothing | giveUp | accepted | emptyBatch | freeUndelivered
  | undeliveredFreed | noneDelivered | freeDelivered | batchFreed | drain | drained | drainFree
  | drainFreed => exact harm.elim

theorem ProducerMove.guarded (h : ProducerMove rule s a s') (hf : Frames s) (hg : Guarded s) :
    Guarded s' := by
  have he := h.sameEnv
  have hc := h.sameConsumer.consumer
  refine ⟨?_, ?_, ?_, ?_, ?_⟩
  · rw [he.ready, he.vid]; exact hg.ready
  · rw [he.vid]; exact fun harm => hg.ready (h.edge.armed harm)
  · rw [he.vid, hc]; exact hg.consumer
  · rw [he.session]
    intro v hv
    obtain ⟨rfl, harm⟩ := h.edge.calling hv
    exact hf.vidLive.resolve_left (hg.producer harm)
  · rw [he.session, hc]; exact hg.enqueue

theorem ConsumerMove.guarded (h : ConsumerMove rule s a s') (hf : Frames s) (hg : Guarded s) :
    Guarded s' := by
  have he := h.sameEnv
  have hp := h.sameProducer.producer
  refine ⟨?_, ?_, ?_, ?_, ?_⟩
  · rw [he.ready, he.vid]; exact hg.ready
  · rw [he.vid, hp]; exact hg.producer
  · rw [he.vid]; exact fun harm => (h.edge.armed harm).elim hg.ready hg.consumer
  · rw [he.session, hp]; exact hg.dequeue
  · rw [he.session]
    intro v hv
    obtain ⟨rfl, harm⟩ := h.edge.calling hv
    exact hf.vidLive.resolve_left (hg.consumer harm)

theorem EnvMove.guarded (h : EnvMove s a s') (hf : Frames s) (hsafe : SafeDestroy s a)
    (hg : Guarded s) : Guarded s' := by
  cases h with
  | stop => exact ⟨hg.ready, hg.producer, hg.consumer, hg.dequeue, hg.enqueue⟩
  | newDevice v hv hs =>
    exact ⟨hg.ready, hg.producer, hg.consumer,
      fun w hw => live_of_newDevice hs (hg.dequeue w hw),
      fun w hw => live_of_newDevice hs (hg.enqueue w hw)⟩
  | destroyDevice v hs hc => exact ⟨hg.ready, hg.producer, hg.consumer, hg.dequeue, hg.enqueue⟩
  | newStoreVid i v hi =>
    have hv : v ≠ -1 := by
      have hv0 : 0 ≤ v := hf.nonneg v (hf.live _ (List.mem_of_getElem? hi))
      omega
    exact ⟨fun _ => hv, fun _ => hv, fun _ => hv, hg.dequeue, hg.enqueue⟩
  | newStoreReady i v hi =>
    exact ⟨fun _ => hsafe _ hi, hg.producer, hg.consumer, hg.dequeue, hg.enqueue⟩
  | destroyMatch i v hi hv => exact ⟨hg.ready, hg.producer, hg.consumer, hg.dequeue, hg.enqueue⟩
  | destroyOther i v hi hv => exact ⟨hg.ready, hg.producer, hg.consumer, hg.dequeue, hg.enqueue⟩
  | destroyStoreReady i v hi =>
    exact ⟨fun hr => Bool.noConfusion hr, hg.producer, hg.consumer, hg.dequeue, hg.enqueue⟩
  | destroyStoreVid i v hi =>
    -- the one store of -1: nobody may be on the way to load it
    obtain ⟨hr, hp, hc⟩ := hsafe _ hi
    refine ⟨fun hr' => ?_, fun harm => (hp harm).elim, fun harm => (hc harm).elim,
      hg.dequeue, hg.enqueue⟩
    exact Bool.noConfusion (hr.symm.trans hr')
  | destroyReturn i v hi =>
    obtain ⟨hp, hc⟩ := hsafe _ hi
    refine ⟨hg.ready, hg.producer, hg.consumer, fun w hw => ?_, fun w hw => ?_⟩
    · exact live_of_destroyReturn (fun h0 => hp (h0 ▸ hw)) (hg.dequeue w hw)
    · exact live_of_destroyReturn (fun h0 => hc (h0 ▸ hw)) (hg.enqueue w hw)

theorem step_guarded (hf : Frames s) (hg : Guarded s) (hsafe : SafeDestroy s a)
    (h : step rule s a = some s') : Guarded s' := by
  rcases step_cases h with hp | hc | he
  · exact hp.guarded hf hg
  · exact hc.guarded hf hg
  · exact he.guarded hf hsafe hg

theorem guarded_init : Guarded init := by
  refine ⟨?_, ?_, ?_, ?_, ?_⟩
  · intro h; cases h
  · intro h; exact h.elim
  · intro h; exact h.elim
  · intro v hv; cases hv
  · intro v hv; cases hv

theorem guarded_of_safe {as : List Act} (hr : Transition.run (step rule) init as = some s)
    (hm : Transition.Meets (step rule) SafeDestroy init as) : Frames s ∧ Guarded s := by
  refine Transition.meets_invariant (I := fun s => Frames s ∧ Guarded s) ?_
    ⟨frames_init, guarded_init⟩ hm hr
  intro s a s' hi hsafe hs
  exact ⟨step_frames hi.1 hs, step_guarded hi.1 hi.2 hsafe hs⟩

/-- **No call on a dead device.** In every run whose callbacks leave the threads
their device, each burst call is made on a vid that is in a session, so never
on -1. -/
theorem burst_calls_live (rule : BurstRule) (as : List Act) (a : Act) (s s' : State)
    (hr : Transition.run (step rule) init as = some s)
    (hm : Transition.Meets (step rule) SafeDestroy init as)
    (hs : step rule s a = some s') (v : Int) (hv : s.burstVid a = some v) :
    s.session v ≠ none ∧ v ≠ -1 := by
  obtain ⟨hf, hg⟩ := guarded_of_safe hr hm
  have hlive : s.session v ≠ none := by
    cases a with
    | rteVhostDequeueBurst pkts => exact hg.dequeue v hv
    | rteVhostEnqueueBurst nbTx => exact hg.enqueue v hv
    | _ => cases hv
  have hv0 : 0 ≤ v := hf.nonneg v hlive
  exact ⟨hlive, by omega⟩

/-- The producer up to its dequeue. -/
def toDequeue : List Act := [.producerLoadQuit, .producerLoadReady, .producerLoadVid]

def callingState : State :=
  (Transition.run (step .allThatFits) init (connect 0 ++ toDequeue)).getD init

theorem burst_calls_live_connected :
    callingState.burstVid (.rteVhostDequeueBurst [mbufOf 0]) = some 0 ∧
    callingState.session 0 ≠ none ∧ (0 : Int) ≠ -1 :=
  ⟨rfl, burst_calls_live .allThatFits (connect 0 ++ toDequeue) (.rteVhostDequeueBurst [mbufOf 0])
    callingState (callingState.receive [mbufOf 0]) rfl (by decide) rfl 0 rfl⟩

/-- The callbacks of the guest behind `vid` disconnecting, run alone. -/
def disconnect (vid : Int) : List Act :=
  [.destroyDevice vid, .callback 0, .callback 0, .callback 0, .callback 0]

/-- The guest disconnects between the producer's test of `ready_` and its load of
`vid_`; the dequeue is then made with -1. -/
theorem call_on_dead_device :
    ¬ ∀ (as : List Act) (a : Act) (s s' : State),
      Transition.run (step .allThatFits) init as = some s → step .allThatFits s a = some s' →
      ∀ v, s.burstVid a = some v → s.session v ≠ none ∧ v ≠ -1 := by
  intro hall
  have hdead := hall
    (connect 0 ++ [.producerLoadQuit, .producerLoadReady] ++ disconnect 0 ++ [.producerLoadVid])
    (.rteVhostDequeueBurst []) _ _ rfl rfl (-1) rfl
  exact hdead.2 rfl

/-! ## Sessions -/

/-- A packet of session `n`, or of no session (a dequeue from a dead vid). -/
def Mbuf.Of (b : Mbuf) (n : Option Nat) : Prop := b.session = none ∨ b.session = n

/-- No thread has loaded `v` for a call it is yet to make. -/
def State.NotCalling (s : State) (v : Int) : Prop :=
  s.producer.calling ≠ some v ∧ s.consumer.calling ≠ some v

/-- Every loaded vid is `v` or -1. -/
def State.CallsOnly (s : State) (v : Int) : Prop :=
  (∀ w ∈ s.producer.calling, w = v ∨ w = -1) ∧ ∀ w ∈ s.consumer.calling, w = v ∨ w = -1

/-- `new_device(v)` stores `v` only when nothing of another session is under way. -/
def Callback.Quiet (s : State) : Callback → Prop
  | .newStoreVid v => (∀ b ∈ s.flight, b.Of (s.session v)) ∧ s.CallsOnly v
  | .newStoreReady _ | .destroyLoadVid _ | .destroyStoreReady _ | .destroyStoreVid _
  | .destroyReturn _ => True

/-- The device a guest connects as. -/
def Act.connecting : Act → Option Int
  | .newDevice v => some v
  | _ => none

/-- A vid is connected again only when no thread still has it from its last
session, and is stored only into a pipeline without packets of other sessions. -/
def QuietHandover (s : State) (a : Act) : Prop :=
  (∀ v ∈ a.connecting, s.NotCalling v) ∧ ∀ c ∈ s.frame a, c.Quiet s

instance (s : State) (v : Int) : Decidable (s.NotCalling v) := inferInstanceAs (Decidable (_ ∧ _))

instance (s : State) (v : Int) : Decidable (s.CallsOnly v) := inferInstanceAs (Decidable (_ ∧ _))

instance (b : Mbuf) (n : Option Nat) : Decidable (b.Of n) := inferInstanceAs (Decidable (_ ∨ _))

instance (s : State) : (c : Callback) → Decidable (c.Quiet s)
  | .newStoreVid _ => inferInstanceAs (Decidable (_ ∧ _))
  | .newStoreReady _ | .destroyLoadVid _ | .destroyStoreReady _ | .destroyStoreVid _
  | .destroyReturn _ => .isTrue trivial

instance (s : State) (a : Act) : Decidable (QuietHandover s a) :=
  inferInstanceAs (Decidable (_ ∧ _))

/-- Session `n` of the vid `v` is the only one the threads are concerned with.
Once it is over, `vid_` is -1; a new session of `v` is nobody's business until
`new_device` stores `v`. -/
structure Epoch (s : State) (v : Int) (n : Nat) : Prop where
  vid : s.vid = v ∨ s.vid = -1
  calls : s.CallsOnly v
  flight : ∀ b ∈ s.flight, b.Of (some n)
  phase : s.session v = some n ∨ s.vid = -1 ∧ (s.session v = none ∨ s.NotCalling v)

/-- A packet accepted in a session comes from that session. -/
def State.SessionsKept (s : State) : Prop :=
  ∀ d ∈ s.delivered, ∀ m n, d.mbuf.session = some m → d.session = some n → m = n

theorem session_neg_one (hf : Frames s) : s.session (-1) = none := by
  by_contra hlive
  have h0 := hf.nonneg (-1) hlive
  omega

/-- A loaded vid is in the epoch's session or in none. -/
theorem Epoch.session_of_call {v w : Int} {n : Nat} (hf : Frames s) (he : Epoch s v n)
    (hcall : s.producer.calling = some w ∨ s.consumer.calling = some w) :
    s.session w = none ∨ s.session w = some n := by
  have hw : w = v ∨ w = -1 := hcall.elim (he.calls.1 w) (he.calls.2 w)
  rcases hw with rfl | rfl
  · rcases he.phase with hon | ⟨-, hoff | hnot⟩
    · exact .inr hon
    · exact .inl hoff
    · exact (hcall.elim hnot.1 hnot.2).elim
  · exact .inl (session_neg_one hf)

/-- A load of `vid_` while it is -1 does not prepare a call on a live device. -/
theorem Epoch.phase_of_load {v : Int} {n : Nat} (hf : Frames s) (he : Epoch s v n)
    (hsame : SameEnv s s')
    (hp : ∀ w, s'.producer.calling = some w → w = s.vid ∨ s.producer.calling = some w)
    (hc : ∀ w, s'.consumer.calling = some w → w = s.vid ∨ s.consumer.calling = some w) :
    s'.session v = some n ∨ s'.vid = -1 ∧ (s'.session v = none ∨ s'.NotCalling v) := by
  rw [hsame.session, hsame.vid]
  refine he.phase.imp id (fun ⟨hvid, hoff⟩ => ⟨hvid, ?_⟩)
  rcases hoff with hoff | hnot
  · exact .inl hoff
  · by_cases hv : v = -1
    · exact .inl (hv ▸ session_neg_one hf)
    · refine .inr ⟨fun h => ?_, fun h => ?_⟩
      · exact (hp v h).elim (fun heq => hv (heq.trans hvid)) hnot.1
      · exact (hc v h).elim (fun heq => hv (heq.trans hvid)) hnot.2

/-- What a producer move adds to the dequeued packets comes from the vid it called. -/
theorem ProducerMove.dequeued_session (h : ProducerMove rule s a s') {xs : List Mbuf}
    (hx : s'.dequeued = s.dequeued ++ xs) :
    ∀ b ∈ xs, ∃ w, s.producer.calling = some w ∧ b.session = s.session w := by
  intro b hb
  cases h with
  | receive vid pkts hp hf =>
    rw [receive_dequeued] at hx
    obtain rfl := List.append_cancel_left hx
    exact ⟨vid, by rw [hp]; rfl, hf.2.2 b hb⟩
  | push pkts sent pushed hp hk =>
    rw [push_dequeued] at hx
    rw [List.self_eq_append_right.mp hx] at hb
    cases hb
  | exit | enter | ready | notReady | loadVid | retry =>
    rw [List.self_eq_append_right.mp hx] at hb
    cases hb

theorem ProducerMove.epoch {v : Int} {n : Nat} (h : ProducerMove rule s a s') (hf : Frames s)
    (he : Epoch s v n) : Epoch s' v n := by
  have hsame := h.sameEnv
  have hc := h.sameConsumer.consumer
  refine ⟨by rw [hsame.vid]; exact he.vid, ⟨?_, by rw [hc]; exact he.calls.2⟩, ?_, ?_⟩
  · intro w hw
    rw [(h.edge.calling hw).1]
    exact he.vid
  · intro b hb
    rcases h.channel.mem_flight hb with hb | ⟨xs, hx, hb⟩
    · exact he.flight b hb
    · obtain ⟨w, hw, hbw⟩ := h.dequeued_session hx b hb
      unfold Mbuf.Of
      rw [hbw]
      exact he.session_of_call hf (.inl hw)
  · refine he.phase_of_load hf hsame (fun w hw => .inl (h.edge.calling hw).1) (fun w hw => .inr ?_)
    rwa [hc] at hw

theorem ConsumerMove.epoch {v : Int} {n : Nat} (h : ConsumerMove rule s a s') (hf : Frames s)
    (he : Epoch s v n) : Epoch s' v n := by
  have hsame := h.sameEnv
  have hp := h.sameProducer
  refine ⟨by rw [hsame.vid]; exact he.vid, ⟨by rw [hp.producer]; exact he.calls.1, ?_⟩, ?_, ?_⟩
  · intro w hw
    rw [(h.edge.calling hw).1]
    exact he.vid
  · intro b hb
    rcases h.channel.mem_flight hb with hb | ⟨xs, hx, hb⟩
    · exact he.flight b hb
    · have hnil : xs = [] := List.self_eq_append_right.mp (hp.dequeued.symm.trans hx)
      rw [hnil] at hb
      cases hb
  · refine he.phase_of_load hf hsame (fun w hw => .inr ?_) (fun w hw => .inl (h.edge.calling hw).1)
    rwa [hp.producer] at hw

/-- The packets of an epoch are accepted in its session, or in none. -/
theorem ConsumerMove.sessionsKept {v : Int} {n : Nat} (h : ConsumerMove rule s a s')
    (hf : Frames s) (he : Epoch s v n) (hi : s.SessionsKept) : s'.SessionsKept := by
  cases h with
  | deliver vid pkts sent retries nbTx hc hk =>
    intro d hd k l hk' hl
    rw [deliver_delivered] at hd
    rcases List.mem_append.mp hd with hd | hd
    · exact hi d hd k l hk' hl
    · obtain ⟨b, hb, rfl⟩ := List.mem_map.mp hd
      have hflight : b ∈ s.flight := by
        have hu : b ∈ s.consumer.undelivered := by
          rw [hc]
          exact List.mem_of_mem_take hb
        simp only [State.flight, List.mem_append]
        exact .inl (.inl hu)
      -- the packet and the device called are each of the epoch's session or of none
      have hcall : s.consumer.calling = some vid := by rw [hc]; rfl
      have hbn : b.session = none ∨ b.session = some n := he.flight b hflight
      have hvn := he.session_of_call hf (.inr hcall)
      simp only at hk' hl
      rw [hk'] at hbn
      rw [hl] at hvn
      have hkn : k = n := by simpa using hbn
      have hln : l = n := by simpa using hvn
      rw [hkn, hln]
  | leave | enter | ready | notReady | take | drain | loadVid | freeUndelivered | freeDelivered
  | drainFree => exact hi

/-- A callback either leaves the epoch or, storing its vid, starts the next. -/
theorem EnvMove.epoch {v : Int} {n : Nat} (h : EnvMove s a s') (hf : Frames s)
    (hq : QuietHandover s a) (he : Epoch s v n) : ∃ v n, Epoch s' v n := by
  cases h with
  | stop | destroyDevice w hs hc => exact ⟨v, n, he.vid, he.calls, he.flight, he.phase⟩
  | newStoreReady i w hi | destroyMatch i w hi hv | destroyOther i w hi hv
  | destroyStoreReady i w hi => exact ⟨v, n, he.vid, he.calls, he.flight, he.phase⟩
  | newDevice w hw hs =>
    refine ⟨v, n, he.vid, he.calls, he.flight, ?_⟩
    by_cases hwv : v = w
    · -- `v` connects again: it was free, so its session of this epoch is over
      subst hwv
      have hvid : s.vid = -1 := by
        rcases he.phase with hon | hoff
        · rw [hs] at hon
          cases hon
        · exact hoff.1
      exact .inr ⟨hvid, .inr (hq.1 v rfl)⟩
    · show Function.update s.session w (some s.sessions) v = some n ∨ _ ∧
        (Function.update s.session w (some s.sessions) v = none ∨ _)
      rw [Function.update_of_ne hwv]
      exact he.phase
  | newStoreVid i w hi =>
    -- the next epoch: the handover is quiet, so all that is in flight is its own
    obtain ⟨hflight, hcalls⟩ := hq.2 _ hi
    obtain ⟨m, hm⟩ := Option.ne_none_iff_exists'.mp (hf.live _ (List.mem_of_getElem? hi))
    have hm' : s.session w = some m := hm
    rw [hm'] at hflight
    exact ⟨w, m, .inl rfl, hcalls, hflight, .inl hm'⟩
  | destroyStoreVid i w hi =>
    exact ⟨v, n, .inr rfl, he.calls, he.flight, he.phase.imp id (fun h => ⟨rfl, h.2⟩)⟩
  | destroyReturn i w hi =>
    refine ⟨v, n, he.vid, he.calls, he.flight, ?_⟩
    by_cases hwv : v = w
    · -- the epoch's session ends, and its `destroy_device` has cleared `vid_`
      subst hwv
      have hvid : s.vid = -1 := he.vid.resolve_left (hf.cleared v (List.mem_of_getElem? hi))
      exact .inr ⟨hvid, .inl (Function.update_self ..)⟩
    · show Function.update s.session w none v = some n ∨ _ ∧
        (Function.update s.session w none v = none ∨ _)
      rw [Function.update_of_ne hwv]
      exact he.phase

/-- What a run with quiet handovers keeps. -/
structure Sessions (s : State) : Prop where
  frames : Frames s
  epoch : ∃ v n, Epoch s v n
  kept : s.SessionsKept

theorem step_sessions (hi : Sessions s) (hq : QuietHandover s a) (h : step rule s a = some s') :
    Sessions s' := by
  obtain ⟨hf, ⟨v, n, he⟩, hk⟩ := hi
  have hf' := step_frames hf h
  rcases step_cases h with hp | hc | hm
  · refine ⟨hf', ⟨v, n, hp.epoch hf he⟩, ?_⟩
    unfold State.SessionsKept
    rw [hp.sameConsumer.delivered]
    exact hk
  · exact ⟨hf', ⟨v, n, hc.epoch hf he⟩, hc.sessionsKept hf he hk⟩
  · refine ⟨hf', hm.epoch hf hq he, ?_⟩
    unfold State.SessionsKept
    rw [hm.sameThreads.delivered]
    exact hk

theorem sessions_init : Sessions init := by
  refine ⟨frames_init, ⟨-1, 0, .inl rfl, ⟨?_, ?_⟩, ?_, .inr ⟨rfl, .inl rfl⟩⟩, ?_⟩
  · intro w hw; cases hw
  · intro w hw; cases hw
  · intro b hb; cases hb
  · intro d hd; cases hd

/-- **Sessions are kept apart.** In every run whose handovers are quiet, a packet
is accepted in no session but the one it was dequeued in. -/
theorem sessions_kept (rule : BurstRule) (as : List Act) (s : State)
    (hr : Transition.run (step rule) init as = some s)
    (hm : Transition.Meets (step rule) QuietHandover init as) :
    ∀ d ∈ s.delivered, ∀ m n, d.mbuf.session = some m → d.session = some n → m = n := by
  have hi : Sessions s := by
    refine Transition.meets_invariant ?_ sessions_init hm hr
    exact fun s a s' hi hq hs => step_sessions hi hq hs
  exact hi.kept

/-- The consumer takes one packet and the guest accepts it. -/
def forwards : List Act :=
  [.consumerLoadQuit, .consumerLoadReady, .rteRingScDequeueBurst 1, .consumerLoadVid,
    .rteVhostEnqueueBurst 1]

/-- A packet goes through, then the guest disconnects and another one connects. -/
def handoverRun : List Act :=
  connect 0 ++ receives 0 1 ++ [.rteRingSpEnqueueBurst 1] ++ forwards ++ disconnect 0 ++ connect 1

def handoverState : State := (Transition.run (step .allThatFits) init handoverRun).getD init

theorem sessions_kept_handover :
    handoverState.delivered = [⟨mbufOf 0, some 0⟩] ∧
    ∀ d ∈ handoverState.delivered, ∀ m n, d.mbuf.session = some m → d.session = some n → m = n :=
  ⟨rfl, sessions_kept .allThatFits handoverRun handoverState rfl (by decide)⟩

/-- The same with the packet still in the ring at the handover. -/
def crossingRun : List Act :=
  connect 0 ++ receives 0 1 ++ [.rteRingSpEnqueueBurst 1] ++ disconnect 0 ++ connect 1 ++ forwards

def crossingState : State := (Transition.run (step .allThatFits) init crossingRun).getD init

/-- The second guest gets the packet of the first. -/
theorem packet_crosses_sessions :
    ¬ ∀ s, Reachable .allThatFits s →
      ∀ d ∈ s.delivered, ∀ m n, d.mbuf.session = some m → d.session = some n → m = n := by
  intro hall
  have hcross := hall crossingState ⟨crossingRun, rfl⟩ ⟨mbufOf 0, some 1⟩ (by decide) 0 1 rfl rfl
  exact absurd hcross (by decide)

end VirtioBench.Vhost
