import Queuey.Rabbit.ConfirmPool

/-!
# Exclusive use of a pooled channel

Whose channel it is never becomes unclear: in every reachable state a channel is idle or
held by one call. That a held channel carries no other call's tag needs more. Cancelling
a call whose tag is unanswered returns the channel with the tag still on it, so the
second invariant is proved for the runs without such a cancellation, and a run with one
reports a returned message as published.
-/
namespace Queuey.Rabbit.ConfirmPool
open Transition

variable {s t : State} {k c : ℕ} {p : Phase}

/-- Every channel is idle once, or held by one call. -/
structure Owned (s : State) : Prop where
  idleOld : ∀ c ∈ s.idle, c < s.next
  heldOld : ∀ k c, (s.phase k).channel? = some c → c < s.next
  nodup : s.idle.Nodup
  apart : ∀ k c, (s.phase k).channel? = some c → c ∉ s.idle
  unique : ∀ k k' c, (s.phase k).channel? = some c → (s.phase k').channel? = some c → k = k'

/-- A call moves to a phase that holds what it held before, or nothing. -/
theorem Owned.rephase (h : Owned s) (hp : p.channel? = none ∨ p.channel? = (s.phase k).channel?)
    (phase : t.phase = Function.update s.phase k p) (idle : t.idle = s.idle)
    (next : t.next = s.next) : Owned t := by
  have held : ∀ j c, (t.phase j).channel? = some c → (s.phase j).channel? = some c := by
    intro j c hj
    rw [phase, Function.update_apply] at hj
    split at hj
    · subst j
      rcases hp with hp | hp
      · rw [hp] at hj
        cases hj
      · rw [← hp, hj]
    · exact hj
  exact {
    idleOld := by rw [idle, next]; exact h.idleOld
    heldOld := fun j c hj => by rw [next]; exact h.heldOld j c (held j c hj)
    nodup := by rw [idle]; exact h.nodup
    apart := fun j c hj => by rw [idle]; exact h.apart j c (held j c hj)
    unique := fun j j' c hj hj' => h.unique j j' c (held j c hj) (held j' c hj') }

theorem Owned.frame (h : Owned s) (phase : t.phase = s.phase) (idle : t.idle = s.idle)
    (next : t.next = s.next) : Owned t :=
  h.rephase (k := 0) (p := s.phase 0) (.inr rfl) (by rw [phase, Function.update_eq_self]) idle next

/-- Idle channels may leave the pool for good. -/
theorem Owned.shrink (h : Owned s) (phase : t.phase = s.phase) (idle : t.idle.Sublist s.idle)
    (next : t.next = s.next) : Owned t where
  idleOld c hc := by rw [next]; exact h.idleOld c (idle.subset hc)
  heldOld j c hj := by rw [next]; rw [phase] at hj; exact h.heldOld j c hj
  nodup := h.nodup.sublist idle
  apart j c hj hc := by rw [phase] at hj; exact h.apart j c hj (idle.subset hc)
  unique j j' c hj hj' := by rw [phase] at hj hj'; exact h.unique j j' c hj hj'

/-- A call that held nothing takes a channel that nobody else has. -/
theorem Owned.take (h : Owned s) (hp : p.channel? = some c)
    (free : ∀ j, (s.phase j).channel? ≠ some c) (gone : c ∉ t.idle) (old : c < t.next)
    (phase : t.phase = Function.update s.phase k p) (idle : t.idle.Sublist s.idle)
    (next : s.next ≤ t.next) : Owned t := by
  have held : ∀ j d, (t.phase j).channel? = some d →
      (j = k ∧ d = c) ∨ (s.phase j).channel? = some d := by
    intro j d hj
    rw [phase, Function.update_apply] at hj
    split at hj
    · rename_i hjk
      rw [hp] at hj
      exact .inl ⟨hjk, (Option.some.inj hj).symm⟩
    · exact .inr hj
  refine ⟨fun d hd => (h.idleOld d (idle.subset hd)).trans_le next, ?_, h.nodup.sublist idle,
    ?_, ?_⟩
  · intro j d hj
    rcases held j d hj with ⟨-, rfl⟩ | hs
    · exact old
    · exact (h.heldOld j d hs).trans_le next
  · intro j d hj
    rcases held j d hj with ⟨-, rfl⟩ | hs
    · exact gone
    · exact fun hd => h.apart j d hs (idle.subset hd)
  · intro j j' d hj hj'
    rcases held j d hj with ⟨rfl, hd⟩ | hs <;> rcases held j' d hj' with ⟨rfl, hd'⟩ | hs'
    · rfl
    · exact absurd (hd ▸ hs') (free j')
    · exact absurd (hd' ▸ hs) (free j)
    · exact h.unique j j' d hs hs'

theorem Owned.pop (h : Owned s) (hs : stepPop s k = some t) : Owned t := by
  revert hs
  fun_cases stepPop s k with
  | case1 hk hidle =>
    rintro ⟨⟩
    exact h.rephase (.inl rfl) rfl rfl rfl
  | case2 hk c rest hidle hconn =>
    rintro ⟨⟩
    have hc : c ∈ s.idle := by simp [hidle]
    have hnodup := h.nodup
    rw [hidle, List.nodup_cons] at hnodup
    exact h.take (p := .leased c) rfl (fun j hj => h.apart j c hj hc) hnodup.1 (h.idleOld c hc)
      rfl (by rw [hidle]; exact List.sublist_cons_self c rest) le_rfl
  | case3 hk c rest hidle hconn =>
    rintro ⟨⟩
    have hp : Phase.opening.channel? = none := rfl
    exact (h.rephase (t := s.setPhase k .opening) (.inl hp) rfl rfl rfl).shrink rfl
      (by simp [State.setPhase, hidle]) rfl
  | case4 => rintro ⟨⟩

theorem Owned.opened {result : Except Failure Unit} (h : Owned s)
    (hs : stepOpened s k result = some t) : Owned t := by
  revert hs
  fun_cases stepOpened s k result with
  | case1 hk =>
    rintro ⟨⟩
    exact h.take (p := .leased s.next) rfl (fun j hj => absurd (h.heldOld j _ hj) (lt_irrefl _))
      (fun hc => absurd (h.idleOld _ hc) (lt_irrefl _)) (Nat.lt_succ_self _) rfl
      (List.Sublist.refl _) (Nat.le_succ _)
  | case2 hk e =>
    rintro ⟨⟩
    exact h.rephase (.inl rfl) rfl rfl rfl
  | case3 => rintro ⟨⟩

theorem Owned.pushBack (h : Owned s) (hs : stepPushBack s k = some t) : Owned t := by
  revert hs
  fun_cases stepPushBack s k with
  | case2 => rintro ⟨⟩
  | case1 c outcome hk =>
    rintro ⟨⟩
    have hc : (s.phase k).channel? = some c := by rw [hk]; rfl
    have others : ∀ j d, ((Function.update s.phase k (.releasing outcome)) j).channel? = some d →
        j ≠ k ∧ (s.phase j).channel? = some d := by
      intro j d hj
      by_cases hjk : j = k
      · subst j
        simp [Phase.channel?] at hj
      · simpa [hjk] using hj
    refine ⟨?_, ?_, ?_, ?_, ?_⟩
    · intro d hd
      rcases List.mem_cons.mp hd with rfl | hd
      · exact h.heldOld k d hc
      · exact h.idleOld d hd
    · exact fun j d hj => h.heldOld j d (others j d hj).2
    · exact List.nodup_cons.mpr ⟨h.apart k c hc, h.nodup⟩
    · intro j d hj hd
      obtain ⟨hne, hs⟩ := others j d hj
      rcases List.mem_cons.mp hd with rfl | hd
      · exact hne (h.unique j k d hs hc)
      · exact h.apart j d hs hd
    · exact fun j j' d hj hj' => h.unique j j' d (others j d hj).2 (others j' d hj').2

/-- Ownership needs no guard: it is kept by every step of the pool. -/
theorem Owned.step {a : Action} (h : Owned s) (hs : ConfirmPool.step s a = some t) : Owned t := by
  cases a with
  | call k queue =>
    obtain ⟨-, rfl | ⟨e, rfl⟩⟩ := call_cases hs <;> exact h.rephase (.inl rfl) rfl rfl rfl
  | acquire k =>
    obtain ⟨-, ⟨-, rfl⟩ | ⟨-, -, rfl⟩⟩ := acquire_cases hs <;>
      exact h.rephase (.inl rfl) rfl rfl rfl
  | pop k => exact h.pop hs
  | opened k result => exact h.opened hs
  | publish k refused =>
    obtain ⟨c, hk, ⟨e, rfl⟩ | ⟨-, rfl⟩⟩ := publish_cases hs <;>
      exact h.rephase (.inr (by rw [hk]; rfl)) rfl rfl rfl
  | sent k failed =>
    obtain ⟨c, hk, rfl | ⟨-, e, rfl⟩⟩ := sent_cases hs <;>
      exact h.rephase (.inr (by rw [hk]; rfl)) rfl rfl rfl
  | confirm k =>
    obtain ⟨c, hk, ⟨confirmation, -, rfl⟩ | ⟨e, -, rfl⟩⟩ := confirm_cases hs <;>
      exact h.rephase (.inr (by rw [hk]; rfl)) rfl rfl rfl
  | pushBack k => exact h.pushBack hs
  | release k =>
    obtain ⟨outcome, -, rfl⟩ := release_cases hs
    exact h.rephase (.inl rfl) rfl rfl rfl
  | cancel k =>
    obtain ⟨-, rfl⟩ | ⟨-, rfl⟩ | ⟨c, hk | hk, rfl⟩ := cancel_cases hs
    · exact h.rephase (.inl rfl) rfl rfl rfl
    · exact h.rephase (.inl rfl) rfl rfl rfl
    · exact h.rephase (.inr (by rw [hk]; rfl)) rfl rfl rfl
    · exact h.rephase (.inr (by rw [hk]; rfl)) rfl rfl rfl
  | route c k =>
    obtain ⟨-, -, rfl⟩ := route_cases hs
    exact h.frame rfl rfl rfl
  | giveBack c k replyCode replyText =>
    obtain ⟨-, -, -, rfl⟩ := giveBack_cases hs
    exact h.frame rfl rfl rfl
  | resolve c k acked =>
    obtain ⟨-, -, -, rfl⟩ := resolve_cases hs
    exact h.frame rfl rfl rfl
  | die c error =>
    obtain rfl := die_cases hs
    exact h.frame rfl rfl rfl
  | close j =>
    obtain ⟨-, rfl⟩ := close_cases hs
    exact h.frame rfl rfl rfl
  | takePermits j =>
    obtain ⟨-, ⟨-, rfl⟩ | ⟨-, -, rfl⟩⟩ := takePermits_cases hs <;> exact h.frame rfl rfl rfl
  | closePermits j =>
    obtain ⟨took, -, rfl⟩ := closePermits_cases hs
    exact h.frame rfl rfl rfl
  | takeIdle j =>
    obtain ⟨took, -, rfl⟩ := takeIdle_cases hs
    exact h.shrink rfl (List.nil_sublist _) rfl
  | closeChannel j result =>
    obtain ⟨took, c, rest, first, after, -, rfl | rfl⟩ := closeChannel_cases hs <;>
      exact h.frame rfl rfl rfl
  | closeDone j =>
    obtain ⟨took, result, -, rfl⟩ := closeDone_cases hs
    exact h.frame rfl rfl rfl

/-- The phases before the delivery tag is registered. -/
def Phase.unsent : Phase → Bool
  | idle | waiting | permitted | opening | leased _ => true
  | _ => false

/-- Every unanswered tag belongs to the call that holds its channel, alone, and a returned
message stays queued until the answer to its own tag picks it up. -/
structure Exclusive (s : State) : Prop where
  owner : ∀ c k, k ∈ (s.channels c).pending → s.phase k = .sending c ∨ s.phase k = .confirming c
  single : ∀ c, (s.channels c).pending = [] ∨ ∃ k, (s.channels c).pending = [k]
  down : ∀ c, (s.channels c).connected = false → (s.channels c).pending = []
  unanswered : ∀ c k, k ∈ (s.channels c).pending → s.answer k = none
  queued : ∀ c, (s.channels c).connected = true → (s.channels c).returned = [] ∨
    ∃ r, (s.channels c).returned = [r] ∧ r.message ∈ (s.channels c).pending ∧
      s.unroutable r.message = true
  kept : ∀ c k, k ∈ (s.channels c).pending → s.unroutable k = true → (s.channels c).returned ≠ []
  unsent : ∀ k, (s.phase k).unsent = true → s.unroutable k = false ∧ s.answer k = none
  answered : ∀ k, s.answer k = some (.ok (.ack none)) → s.routed k = true
  honest : ∀ k, (s.phase k).outcome? = some (.returned (.ok ())) → s.routed k = true
  either : ∀ k, s.routed k = true → s.unroutable k = false

/-- A call changes phase and leaves no unanswered tag behind. -/
theorem Exclusive.rephase (h : Exclusive s)
    (tags : ∀ c, k ∈ (s.channels c).pending → p = .sending c ∨ p = .confirming c)
    (fresh : p.unsent = true → (s.phase k).unsent = true)
    (honest : p.outcome? = some (.returned (.ok ())) → s.routed k = true)
    (phase : t.phase = Function.update s.phase k p) (channels : t.channels = s.channels)
    (answer : t.answer = s.answer) (routed : t.routed = s.routed)
    (unroutable : t.unroutable = s.unroutable) : Exclusive t where
  owner c j hj := by
    rw [channels] at hj
    rw [phase, Function.update_apply]
    split
    · subst j
      exact tags c hj
    · exact h.owner c j hj
  single c := by rw [channels]; exact h.single c
  down c := by rw [channels]; exact h.down c
  unanswered c j := by rw [channels, answer]; exact h.unanswered c j
  queued c := by rw [channels, unroutable]; exact h.queued c
  kept c j := by rw [channels, unroutable]; exact h.kept c j
  unsent j hj := by
    rw [phase, Function.update_apply] at hj
    rw [unroutable, answer]
    split at hj
    · subst j
      exact h.unsent k (fresh hj)
    · exact h.unsent j hj
  answered j := by rw [answer, routed]; exact h.answered j
  honest j hj := by
    rw [phase, Function.update_apply] at hj
    rw [routed]
    split at hj
    · subst j
      exact honest hj
    · exact h.honest j hj
  either j := by rw [routed, unroutable]; exact h.either j

theorem Exclusive.frame (h : Exclusive s) (phase : t.phase = s.phase)
    (channels : t.channels = s.channels) (answer : t.answer = s.answer)
    (routed : t.routed = s.routed) (unroutable : t.unroutable = s.unroutable) : Exclusive t :=
  h.rephase (k := 0) (p := s.phase 0) (fun c hc => h.owner c 0 hc) id (h.honest 0)
    (by rw [phase, Function.update_eq_self]) channels answer routed unroutable

/-- A channel held by a call that waits for no tag has none. -/
theorem Exclusive.clear (h : Exclusive s) (o : Owned s) (held : (s.phase k).channel? = some c)
    (sending : s.phase k ≠ .sending c) (confirming : s.phase k ≠ .confirming c) :
    (s.channels c).pending = [] := by
  rw [List.eq_nil_iff_forall_not_mem]
  intro j hj
  have hheld : (s.phase j).channel? = some c := by
    rcases h.owner c j hj with hp | hp <;> rw [hp] <;> rfl
  obtain rfl := o.unique j k c hheld held
  exact (h.owner c j hj).elim sending confirming

/-- No unanswered tag belongs to a call outside `sending` and `confirming`. -/
theorem Exclusive.notPending (h : Exclusive s) (sending : ∀ c, s.phase k ≠ .sending c)
    (confirming : ∀ c, s.phase k ≠ .confirming c) (c : ℕ) : k ∉ (s.channels c).pending :=
  fun hk => (h.owner c k hk).elim (sending c) (confirming c)

/-- A call that waits for no tag changes phase. -/
theorem Exclusive.move (h : Exclusive s) (sending : ∀ c, s.phase k ≠ .sending c)
    (confirming : ∀ c, s.phase k ≠ .confirming c)
    (fresh : p.unsent = true → (s.phase k).unsent = true)
    (honest : p.outcome? = some (.returned (.ok ())) → s.routed k = true)
    (phase : t.phase = Function.update s.phase k p) (channels : t.channels = s.channels)
    (answer : t.answer = s.answer) (routed : t.routed = s.routed)
    (unroutable : t.unroutable = s.unroutable) : Exclusive t :=
  h.rephase (fun c hc => absurd hc (h.notPending sending confirming c)) fresh honest phase channels
    answer routed unroutable

theorem Exclusive.sameChannel {d : ℕ} (h : Exclusive s) (hc : k ∈ (s.channels c).pending)
    (hd : k ∈ (s.channels d).pending) : c = d := by
  rcases h.owner c k hc with hp | hp <;> rcases h.owner d k hd with hq | hq <;>
    rw [hp] at hq <;> cases hq <;> rfl

theorem Exclusive.alone (h : Exclusive s) (hk : k ∈ (s.channels c).pending) :
    (s.channels c).pending = [k] := by
  rcases h.single c with hs | ⟨j, hs⟩
  · simp [hs] at hk
  · have : k = j := by simpa [hs] using hk
    rw [hs, this]

theorem Exclusive.sent (h : Exclusive s) (hk : k ∈ (s.channels c).pending) :
    (s.phase k).unsent = false := by
  rcases h.owner c k hk with hp | hp <;> rw [hp] <;> rfl

theorem Exclusive.disconnect (h : Exclusive s) (c : ℕ) (error : LapinError) :
    Exclusive (s.disconnect c error) where
  owner d j hj := by
    by_cases hd : d = c
    · subst d
      simp [State.disconnect, State.setChannel] at hj
    · exact h.owner d j (by simpa [State.disconnect, State.setChannel, hd] using hj)
  single d := by
    by_cases hd : d = c
    · subst d
      simp [State.disconnect, State.setChannel]
    · simpa [State.disconnect, State.setChannel, hd] using h.single d
  down d := by
    by_cases hd : d = c
    · subst d
      simp [State.disconnect, State.setChannel]
    · simpa [State.disconnect, State.setChannel, hd] using h.down d
  unanswered d j hj := by
    by_cases hd : d = c
    · subst d
      simp [State.disconnect, State.setChannel] at hj
    · have hj' : j ∈ (s.channels d).pending := by
        simpa [State.disconnect, State.setChannel, hd] using hj
      have hother : j ∉ (s.channels c).pending := fun hc => hd (h.sameChannel hj' hc)
      simpa [State.disconnect, hother] using h.unanswered d j hj'
  queued d := by
    by_cases hd : d = c
    · subst d
      simp [State.disconnect, State.setChannel]
    · simpa [State.disconnect, State.setChannel, hd] using h.queued d
  kept d j hj := by
    by_cases hd : d = c
    · subst d
      simp [State.disconnect, State.setChannel] at hj
    · simpa [State.disconnect, State.setChannel, hd] using
        h.kept d j (by simpa [State.disconnect, State.setChannel, hd] using hj)
  unsent j hj := by
    have hj' : (s.phase j).unsent = true := hj
    have hnot : j ∉ (s.channels c).pending := fun hc => by simp [h.sent hc] at hj'
    exact ⟨(h.unsent j hj').1, by simpa [State.disconnect, hnot] using (h.unsent j hj').2⟩
  answered j hj := by
    by_cases hc : j ∈ (s.channels c).pending
    · simp [State.disconnect, hc] at hj
    · exact h.answered j (by simpa [State.disconnect, hc] using hj)
  honest := h.honest
  either := h.either

theorem Exclusive.opened {result : Except Failure Unit} (h : Exclusive s)
    (hs : stepOpened s k result = some t) : Exclusive t := by
  revert hs
  fun_cases stepOpened s k result with
  | case1 hk =>
    rintro ⟨⟩
    have hnot : ∀ c, k ∉ (s.channels c).pending :=
      h.notPending (by simp [hk]) (by simp [hk])
    have hunsent := h.unsent k (by rw [hk]; rfl)
    refine ⟨?_, ?_, ?_, ?_, ?_, ?_, ?_, h.answered, ?_, h.either⟩
    all_goals simp only [State.setPhase, State.setChannel, Function.update_apply]
    · grind [h.owner]
    · grind [h.single]
    · grind [h.down]
    · grind [h.unanswered]
    · grind [h.queued]
    · grind [h.kept]
    · grind [h.unsent]
    · grind [h.honest, Phase.outcome?]
  | case2 hk e =>
    rintro ⟨⟩
    exact h.move (by simp [hk]) (by simp [hk]) (by simp [Phase.unsent]) (by simp [Phase.outcome?])
      rfl rfl rfl rfl rfl
  | case3 => rintro ⟨⟩

theorem Exclusive.publish {refused : Option LapinError} (h : Exclusive s) (o : Owned s)
    (hs : stepPublish s k refused = some t) : Exclusive t := by
  revert hs
  fun_cases stepPublish s k refused with
  | case1 c hk e =>
    rintro ⟨⟩
    exact h.move (by simp [hk]) (by simp [hk]) (by simp [Phase.unsent]) (by simp [Phase.outcome?])
      rfl rfl rfl rfl rfl
  | case2 c hk hconn =>
    rintro ⟨⟩
    have hclear : (s.channels c).pending = [] :=
      h.clear o (k := k) (by rw [hk]; rfl) (by simp [hk]) (by simp [hk])
    have hreturned : (s.channels c).returned = [] := by
      rcases h.queued c hconn with hr | ⟨r, -, hr, -⟩
      · exact hr
      · simp [hclear] at hr
    have hunsent := h.unsent k (by rw [hk]; rfl)
    have hnot : ∀ c, k ∉ (s.channels c).pending := h.notPending (by simp [hk]) (by simp [hk])
    refine ⟨?_, ?_, ?_, ?_, ?_, ?_, ?_, h.answered, ?_, h.either⟩
    all_goals simp only [State.setPhase, State.setChannel, Function.update_apply]
    · grind [h.owner]
    · grind [h.single]
    · grind [h.down]
    · grind [h.unanswered]
    · grind [h.queued]
    · grind [h.kept]
    · grind [h.unsent, Phase.unsent]
    · grind [h.honest, Phase.outcome?]
  | case3 => rintro ⟨⟩
  | case4 => rintro ⟨⟩

theorem Exclusive.route (h : Exclusive s) (hs : stepRoute s c k = some t) : Exclusive t := by
  revert hs
  fun_cases stepRoute s c k with
  | case1 hk =>
    rintro ⟨⟩
    refine ⟨h.owner, h.single, h.down, h.unanswered, h.queued, h.kept, h.unsent, ?_, ?_, ?_⟩
    all_goals simp only [Function.update_apply]
    · grind [h.answered]
    · grind [h.honest]
    · grind [h.either]
  | case2 => rintro ⟨⟩

theorem Exclusive.giveBack {replyCode : UInt16} {replyText : String} (h : Exclusive s)
    (hs : stepGiveBack s c k replyCode replyText = some t) : Exclusive t := by
  revert hs
  fun_cases stepGiveBack s c k replyCode replyText with
  | case1 hk =>
    rintro ⟨⟩
    obtain ⟨hpending, hrouted, hfirst⟩ := hk
    have hsent := h.sent hpending
    have hone := h.alone hpending
    -- the only tag that could have a returned message queued is `k`'s, and it has none yet
    have hnone : (s.channels c).connected = true → (s.channels c).returned = [] := by
      intro hconn
      rcases h.queued c hconn with hr | ⟨r, -, hm, hu⟩
      · exact hr
      · obtain rfl : r.message = k := by simpa [hone] using hm
        rw [hfirst] at hu
        cases hu
    refine ⟨?_, ?_, ?_, ?_, ?_, ?_, ?_, h.answered, h.honest, ?_⟩
    all_goals simp only [State.setChannel, Function.update_apply]
    · grind [h.owner]
    · grind [h.single]
    · grind [h.down]
    · grind [h.unanswered]
    · grind [h.queued]
    · intro d j hj hu
      by_cases hd : d = c
      · simp [hd]
      · have hjd : j ∈ (s.channels d).pending := by simpa [hd] using hj
        have hjk : j ≠ k := fun hjk => hd (h.sameChannel hjd (hjk ▸ hpending))
        simpa [hd] using h.kept d j hjd (by simpa [hjk] using hu)
    · grind [h.unsent]
    · grind [h.either]
  | case2 => rintro ⟨⟩

theorem Exclusive.resolve {acked : Bool} (h : Exclusive s) (hs : stepResolve s c k acked = some t) :
    Exclusive t := by
  revert hs
  fun_cases stepResolve s c k acked with
  | case1 hk =>
    rintro ⟨⟩
    obtain ⟨hconn, hpending, hprotocol⟩ := hk
    have hsent := h.sent hpending
    have hone := h.alone hpending
    have hbare : (s.channels c).confirmation acked = .ack none → s.routed k = true := by
      intro hbare
      cases acked with
      | false => simp [Channel.confirmation] at hbare
      | true =>
        have hr : (s.channels c).returned = [] := by
          simpa [Channel.confirmation] using hbare
        refine (hprotocol rfl).resolve_right fun hu => h.kept c k hpending hu hr
    have htail : (s.channels c).returned.tail = [] := by
      rcases h.queued c hconn with hr | ⟨r, hr, -⟩ <;> rw [hr] <;> rfl
    have hother : ∀ d, d ≠ c → k ∉ (s.channels d).pending :=
      fun d hd hk => hd (h.sameChannel hk hpending)
    refine ⟨?_, ?_, ?_, ?_, ?_, ?_, ?_, ?_, h.honest, h.either⟩
    all_goals simp only [State.setChannel, Function.update_apply, hone, htail]
    · grind [h.owner]
    · grind [h.single]
    · grind [h.down]
    · grind [h.unanswered]
    · grind [h.queued]
    · grind [h.kept]
    · grind [h.unsent]
    · grind [h.answered]
  | case2 => rintro ⟨⟩

/-- No call is dropped while a channel still waits for the answer to its tag. -/
def NoTagAbandoned (s : State) : Action → Prop
  | .cancel k => ∀ c, k ∉ (s.channels c).pending
  | _ => True

theorem Exclusive.cancel (h : Exclusive s) (guard : NoTagAbandoned s (.cancel k))
    (hs : stepCancel s k = some t) : Exclusive t := by
  have tags : ∀ p, ∀ c, k ∈ (s.channels c).pending → p = Phase.sending c ∨ p = .confirming c :=
    fun p c hc => absurd hc (guard c)
  revert hs
  fun_cases stepCancel s k <;> rintro ⟨⟩ <;>
    exact h.rephase (tags _) (by simp [Phase.unsent]) (by simp [Phase.outcome?]) rfl rfl rfl rfl rfl

theorem Exclusive.sendDone {failed : Option LapinError} (h : Exclusive s)
    (hs : stepSent s k failed = some t) : Exclusive t := by
  obtain ⟨c, hk, rfl | ⟨hdown, e, rfl⟩⟩ := sent_cases hs
  all_goals
    have same : ∀ d, k ∈ (s.channels d).pending → d = c := by
      intro d hd
      have howner := h.owner d k hd
      rw [hk] at howner
      simpa [eq_comm] using howner
  · refine h.rephase (fun d hd => ?_) (by simp [Phase.unsent]) (by simp [Phase.outcome?])
      rfl rfl rfl rfl rfl
    exact .inr (by rw [same d hd])
  · refine h.rephase (fun d hd => ?_) (by simp [Phase.unsent]) (by simp [Phase.outcome?])
      rfl rfl rfl rfl rfl
    rw [same d hd, h.down c hdown] at hd
    cases hd

theorem Exclusive.confirm (h : Exclusive s) (hs : stepConfirm s k = some t) : Exclusive t := by
  obtain ⟨c, hk, ⟨confirmation, ha, rfl⟩ | ⟨e, ha, rfl⟩⟩ := confirm_cases hs
  all_goals
    have answered : ∀ d, k ∉ (s.channels d).pending := by
      intro d hd
      simp [h.unanswered d k hd] at ha
  · refine h.rephase (fun d hd => absurd hd (answered d)) (by simp [Phase.unsent]) (fun hok => ?_)
      rfl rfl rfl rfl rfl
    have hbare : confirmation = .ack none := by
      simpa [Phase.outcome?, confirmationToResult_ok] using hok
    exact h.answered k (by rw [ha, hbare])
  · exact h.rephase (fun d hd => absurd hd (answered d)) (by simp [Phase.unsent])
      (by simp [Phase.outcome?]) rfl rfl rfl rfl rfl

/-- One step of a run without an abandoned tag keeps the pool exclusive. -/
theorem Exclusive.step {a : Action} (h : Exclusive s) (o : Owned s) (guard : NoTagAbandoned s a)
    (hs : ConfirmPool.step s a = some t) : Exclusive t := by
  cases a with
  | call k queue =>
    obtain ⟨hk, rfl | ⟨e, rfl⟩⟩ := call_cases hs <;>
      exact h.move (by simp [hk]) (by simp [hk]) (by simp [hk, Phase.unsent])
        (by simp [Phase.outcome?]) rfl rfl rfl rfl rfl
  | acquire k =>
    obtain ⟨hk, ⟨-, rfl⟩ | ⟨-, -, rfl⟩⟩ := acquire_cases hs <;>
      exact h.move (by simp [hk]) (by simp [hk]) (by simp [hk, Phase.unsent])
        (by simp [Phase.outcome?]) rfl rfl rfl rfl rfl
  | pop k =>
    obtain ⟨hk, ⟨-, rfl⟩ | ⟨c, rest, -, ⟨-, rfl⟩ | ⟨-, rfl⟩⟩⟩ := pop_cases hs <;>
      exact h.move (by simp [hk]) (by simp [hk]) (by simp [hk, Phase.unsent])
        (by simp [Phase.outcome?]) rfl rfl rfl rfl rfl
  | opened k result => exact h.opened hs
  | publish k refused => exact h.publish o hs
  | sent k failed => exact h.sendDone hs
  | confirm k => exact h.confirm hs
  | pushBack k =>
    obtain ⟨c, outcome, hk, rfl⟩ := pushBack_cases hs
    exact h.move (by simp [hk]) (by simp [hk]) (by simp [Phase.unsent])
      (fun hok => h.honest k (by rw [hk]; exact hok)) rfl rfl rfl rfl rfl
  | release k =>
    obtain ⟨outcome, hk, rfl⟩ := release_cases hs
    exact h.move (by simp [hk]) (by simp [hk]) (by simp [Phase.unsent])
      (fun hok => h.honest k (by rw [hk]; exact hok)) rfl rfl rfl rfl rfl
  | cancel k => exact h.cancel guard hs
  | route c k => exact h.route hs
  | giveBack c k replyCode replyText => exact h.giveBack hs
  | resolve c k acked => exact h.resolve hs
  | die c error =>
    obtain rfl := die_cases hs
    exact h.disconnect c error
  | close j =>
    obtain ⟨-, rfl⟩ := close_cases hs
    exact h.frame rfl rfl rfl rfl rfl
  | takePermits j =>
    obtain ⟨-, ⟨-, rfl⟩ | ⟨-, -, rfl⟩⟩ := takePermits_cases hs <;>
      exact h.frame rfl rfl rfl rfl rfl
  | closePermits j =>
    obtain ⟨took, -, rfl⟩ := closePermits_cases hs
    exact h.frame rfl rfl rfl rfl rfl
  | takeIdle j =>
    obtain ⟨took, -, rfl⟩ := takeIdle_cases hs
    exact h.frame rfl rfl rfl rfl rfl
  | closeChannel j result =>
    obtain ⟨took, c, rest, first, after, -, rfl | rfl⟩ := closeChannel_cases hs
    · exact h.frame rfl rfl rfl rfl rfl
    · exact (h.disconnect _ _).frame rfl rfl rfl rfl rfl
  | closeDone j =>
    obtain ⟨took, result, -, rfl⟩ := closeDone_cases hs
    exact h.frame rfl rfl rfl rfl rfl

theorem owned_seeded (size : ℕ) : Owned (seeded size) := by
  constructor <;> simp [seeded, Phase.channel?]

theorem exclusive_seeded (size : ℕ) : Exclusive (seeded size) := by
  constructor <;> simp [seeded, Phase.outcome?]

theorem owned_of_reach {G : State → Action → Prop} (h : Reach system G s) : Owned s :=
  h.invariant (fun _ hs => by obtain ⟨n, rfl⟩ := hs; exact owned_seeded _)
    fun _ _ _ ih _ hs => ih.step hs

theorem exclusive_of_reach (h : Reach system NoTagAbandoned s) : Exclusive s :=
  h.strengthen (fun _ => owned_of_reach)
    (fun _ hs => by obtain ⟨n, rfl⟩ := hs; exact exclusive_seeded _)
    fun _ _ _ o _ ih guard hs => ih.step o guard hs

/-- As long as no call is dropped with its tag unanswered, a channel has at most one
outstanding confirm, a channel just handed out has none, and a call that returned `Ok`
had its message routed to a queue and not returned. -/
theorem exclusive_unless_abandoned (h : Reach system NoTagAbandoned s) :
    (∀ c, (s.channels c).pending.length ≤ 1) ∧
    (∀ k c, s.phase k = .leased c → (s.channels c).pending = []) ∧
    (∀ k, s.phase k = .done (.returned (.ok ())) →
      s.routed k = true ∧ s.unroutable k = false) := by
  have o := owned_of_reach h
  have e := exclusive_of_reach h
  refine ⟨fun c => ?_, fun k c hk => ?_, fun k hk => ?_⟩
  · rcases e.single c with hs | ⟨j, hs⟩ <;> simp [hs]
  · exact e.clear o (k := k) (by rw [hk]; rfl) (by simp [hk]) (by simp [hk])
  · have hrouted := e.honest k (by rw [hk]; rfl)
    exact ⟨hrouted, e.either k hrouted⟩

/-- One publish of a routable message, while another call waits for a permit. -/
def undisturbedRun : List Action :=
  [.call 0 "jobs", .acquire 0, .call 1 "jobs", .pop 0, .publish 0 none, .sent 0 none,
    .route 0 0, .resolve 0 0 true, .confirm 0, .pushBack 0, .release 0]

/-- Dropping the waiting call afterwards leaves no tag behind. -/
theorem exclusive_undisturbed : ∃ s, Reach system NoTagAbandoned s ∧
    s.phase 0 = .done (.returned (.ok ())) ∧ s.phase 1 = .done .cancelled ∧
    s.routed 0 = true := by
  have start : Reach system NoTagAbandoned (seeded 1) := .start ⟨1, rfl⟩
  have published := start.guardedRun undisturbedRun
    (guarded_of_forall (by simp [undisturbedRun, NoTagAbandoned]) _) rfl
  have dropped := published.next (a := Action.cancel 1)
    (fun c => by by_cases hc : c = 0 <;> simp [hc, seeded, State.setPhase, State.setChannel]) rfl
  exact ⟨_, dropped, rfl, rfl, ((exclusive_unless_abandoned dropped).2.2 0 rfl).1⟩

/-- A call is dropped while its tag is unanswered; the next call gets the same channel,
its message is returned, and the answer to the first tag takes the return away. -/
def abandonedRun : List Action :=
  [.call 0 "jobs", .acquire 0, .pop 0, .publish 0 none, .sent 0 none, .cancel 0, .pushBack 0,
    .release 0, .call 1 "gone", .acquire 1, .pop 1]

def misattributedRun : List Action :=
  abandonedRun ++ [.publish 1 none, .sent 1 none, .route 0 0, .giveBack 0 1 312 "NO_ROUTE",
    .resolve 0 0 true, .resolve 0 1 true, .confirm 1, .pushBack 1, .release 1]

/-- Exclusive use fails in a reachable state, and an unroutable publish returns `Ok`. -/
theorem abandoned_tag_misattributed :
    (∃ s, Reachable system s ∧ s.phase 1 = .leased 0 ∧ (s.channels 0).pending = [0]) ∧
    (∃ s, Reachable system s ∧ s.phase 1 = .done (.returned (.ok ())) ∧
      s.unroutable 1 = true ∧ s.routed 1 = false) := by
  have start : Reachable system (seeded 1) := .start ⟨1, rfl⟩
  exact ⟨⟨_, start.run abandonedRun rfl, rfl, rfl⟩,
    ⟨_, start.run misattributedRun rfl, rfl, rfl, rfl⟩⟩

end Queuey.Rabbit.ConfirmPool
