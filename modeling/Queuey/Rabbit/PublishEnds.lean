import Queuey.Library.Completion
import Queuey.Rabbit.Exclusivity
import Queuey.Rabbit.PoolBound

/-!
# Publishes come to an end

A publish takes a bounded number of steps. It waits for a permit only while another publish, or
a close, has one, and for a confirmation only while its own tag is registered on a live
channel. Once it has its permit nobody else can hold it up.
-/
namespace Queuey.Rabbit.ConfirmPool
open Transition Tally

variable {s t u : State} {a : Action} {j k c : ℕ} {p : Phase}

/-- The call that takes the step. -/
def Action.caller : Action → Option ℕ
  | call k _ | acquire k | pop k | opened k _ | publish k _ | sent k _ | confirm k | pushBack k
  | release k | cancel k => some k
  | _ => none

def Action.cancels : Action → Bool
  | cancel _ => true
  | _ => false

/-- The tag of the call, if it is answered. -/
def Action.answered : Action → Option ℕ
  | resolve _ k _ => some k
  | _ => none

/-- The call goes on, or the broker answers it. -/
def Action.serves (k : ℕ) (a : Action) : Prop :=
  a.caller = some k ∧ a.cancels = false ∨ a.answered = some k

def Phase.ended : Phase → Bool
  | done _ => true
  | _ => false

/-- The channel on which the call's tag is registered. -/
def Phase.tagged? : Phase → Option ℕ
  | sending c | confirming c => some c
  | _ => none

/-- How many steps a call has left. -/
def Phase.rank : Phase → ℕ
  | idle => 9
  | waiting => 8
  | permitted => 7
  | opening => 6
  | leased _ => 5
  | sending _ => 4
  | confirming _ => 3
  | returning _ _ => 2
  | releasing _ => 1
  | done _ => 0

theorem Phase.channel?_of_tagged (h : p.tagged? = some c) : p.channel? = some c := by
  cases p <;> cases h <;> rfl

/-! ## What is owed -/

/-- A tag not yet answered is registered, and only live channels have any. -/
structure Owed (s : State) : Prop where
  tag : ∀ k c, (s.phase k).tagged? = some c → s.answer k = none → k ∈ (s.channels c).pending
  alive : ∀ c, (s.channels c).pending ≠ [] → (s.channels c).connected = true

/-- A call moves on, to a phase with the tag it had or with none. -/
theorem Owed.move (h : Owed s) (hp : p.tagged? = none ∨ p.tagged? = (s.phase k).tagged?)
    (phase : t.phase = Function.update s.phase k p) (channels : t.channels = s.channels)
    (answer : t.answer = s.answer) : Owed t := by
  refine ⟨fun i c hi hnone => ?_, by rw [channels]; exact h.alive⟩
  rw [channels]
  rw [answer] at hnone
  rw [phase, Function.update_apply] at hi
  split at hi
  · next hik =>
    subst hik
    obtain hp | hp := hp
    · rw [hp] at hi
      cases hi
    · exact h.tag i c (hp ▸ hi) hnone
  · exact h.tag i c hi hnone

theorem Owed.frame (h : Owed s) (phase : t.phase = s.phase) (channels : t.channels = s.channels)
    (answer : t.answer = s.answer) : Owed t :=
  h.move (k := 0) (p := s.phase 0) (.inr rfl) (by rw [phase, Function.update_eq_self]) channels
    answer

theorem Owed.disconnect (h : Owed s) (c : ℕ) (error : LapinError) : Owed (s.disconnect c error) := by
  refine ⟨fun i d hi hnone => ?_, fun d hd => ?_⟩
  · -- An unanswered tag is not among those the channel has failed.
    have hout : i ∉ (s.channels c).pending := by
      intro hin
      simp [State.disconnect, hin] at hnone
    have hstill : s.answer i = none := by simpa [State.disconnect, hout] using hnone
    have htag := h.tag i d hi hstill
    have hdc : d ≠ c := by
      rintro rfl
      exact hout htag
    simpa [State.disconnect, State.setChannel, hdc] using htag
  · by_cases hdc : d = c
    · subst hdc
      simp [State.disconnect, State.setChannel] at hd
    · simp only [State.disconnect, State.setChannel, Function.update_of_ne hdc] at hd ⊢
      exact h.alive d hd

theorem Owed.opened {result : Except Failure Unit} (h : Owed s) (o : Owned s)
    (hs : stepOpened s k result = some t) : Owed t := by
  obtain ⟨hk, rfl | ⟨e, rfl⟩⟩ := opened_cases hs
  · refine ⟨fun i c hi hnone => ?_, fun c hc => ?_⟩
    · have hik : i ≠ k := by
        rintro rfl
        simp [State.setPhase, State.setChannel, Phase.tagged?] at hi
      have hold : (s.phase i).tagged? = some c := by
        simpa [State.setPhase, State.setChannel, hik] using hi
      have hne : c ≠ s.next := (o.heldOld i c (Phase.channel?_of_tagged hold)).ne
      simpa [State.setPhase, State.setChannel, hne] using h.tag i c hold hnone
    · by_cases hcn : c = s.next
      · subst hcn
        simp [State.setPhase, State.setChannel] at hc
      · simp only [State.setPhase, State.setChannel, Function.update_of_ne hcn] at hc ⊢
        exact h.alive c hc
  · exact h.move (p := .releasing _) (.inl rfl) rfl rfl rfl

theorem Owed.publish {refused : Option LapinError} (h : Owed s)
    (hs : stepPublish s k refused = some t) : Owed t := by
  obtain ⟨c, hk, ⟨e, rfl⟩ | ⟨hconn, rfl⟩⟩ := publish_cases hs
  · exact h.move (p := .returning c _) (.inl rfl) rfl rfl rfl
  · refine ⟨fun i d hi hnone => ?_, fun d hd => ?_⟩
    · by_cases hik : i = k
      · subst hik
        obtain rfl : c = d := by simpa [State.setPhase, State.setChannel, Phase.tagged?] using hi
        simp [State.setPhase, State.setChannel]
      · have hold : (s.phase i).tagged? = some d := by
          simpa [State.setPhase, State.setChannel, hik] using hi
        have hin := h.tag i d hold hnone
        by_cases hdc : d = c
        · subst hdc
          simp [State.setPhase, State.setChannel, hin]
        · simpa [State.setPhase, State.setChannel, hdc] using hin
    · by_cases hdc : d = c
      · subst hdc
        simpa [State.setPhase, State.setChannel] using hconn
      · simp only [State.setPhase, State.setChannel, Function.update_of_ne hdc] at hd ⊢
        exact h.alive d hd

theorem Owed.giveBack {replyCode : UInt16} {replyText : String} (h : Owed s)
    (hs : stepGiveBack s c k replyCode replyText = some t) : Owed t := by
  obtain ⟨-, -, -, rfl⟩ := giveBack_cases hs
  have same : ∀ d, ((Function.update s.channels c { s.channels c with
      returned := (s.channels c).returned ++ [⟨replyCode, replyText, k⟩] }) d).pending =
        (s.channels d).pending ∧ ((Function.update s.channels c { s.channels c with
      returned := (s.channels c).returned ++ [⟨replyCode, replyText, k⟩] }) d).connected =
        (s.channels d).connected := by
    intro d
    rw [Function.update_apply]
    split
    · next hdc => exact ⟨by rw [hdc], by rw [hdc]⟩
    · exact ⟨rfl, rfl⟩
  refine ⟨fun i d hi hnone => ?_, fun d hd => ?_⟩
  · exact (same d).1 ▸ h.tag i d hi hnone
  · exact (same d).2.trans (h.alive d ((same d).1 ▸ hd))

theorem Owed.resolve {acked : Bool} (h : Owed s) (hs : stepResolve s c k acked = some t) :
    Owed t := by
  obtain ⟨hconn, -, -, rfl⟩ := resolve_cases hs
  refine ⟨fun i d hi hnone => ?_, fun d hd => ?_⟩
  · have hik : i ≠ k := by
      rintro rfl
      simp at hnone
    have hin := h.tag i d hi (by simpa [hik] using hnone)
    by_cases hdc : d = c
    · subst hdc
      simpa [State.setChannel] using (List.mem_erase_of_ne hik).mpr hin
    · simpa [State.setChannel, hdc] using hin
  · by_cases hdc : d = c
    · subst hdc
      simpa [State.setChannel] using hconn
    · simp only [State.setChannel, Function.update_of_ne hdc] at hd ⊢
      exact h.alive d hd

theorem Owed.step (h : Owed s) (o : Owned s) (hs : ConfirmPool.step s a = some t) : Owed t := by
  cases a with
  | call k queue =>
    obtain ⟨hk, rfl | ⟨e, rfl⟩⟩ := call_cases hs
    · exact h.move (k := k) (p := .waiting) (.inl rfl) rfl rfl rfl
    · exact h.move (k := k) (p := .done _) (.inl rfl) rfl rfl rfl
  | acquire k =>
    obtain ⟨hk, ⟨-, rfl⟩ | ⟨-, -, rfl⟩⟩ := acquire_cases hs
    · exact h.move (k := k) (p := .done _) (.inl rfl) rfl rfl rfl
    · exact h.move (k := k) (p := .permitted) (.inl rfl) rfl rfl rfl
  | pop k =>
    obtain ⟨hk, ⟨-, rfl⟩ | ⟨c, rest, -, ⟨-, rfl⟩ | ⟨-, rfl⟩⟩⟩ := pop_cases hs
    · exact h.move (k := k) (p := .opening) (.inl rfl) rfl rfl rfl
    · exact h.move (k := k) (p := .leased c) (.inl rfl) rfl rfl rfl
    · exact h.move (k := k) (p := .opening) (.inl rfl) rfl rfl rfl
  | opened k result => exact h.opened o hs
  | publish k refused => exact h.publish hs
  | sent k failed =>
    obtain ⟨c, hk, rfl | ⟨-, e, rfl⟩⟩ := sent_cases hs
    · exact h.move (k := k) (p := .confirming c) (.inr (by rw [hk]; rfl)) rfl rfl rfl
    · exact h.move (k := k) (p := .returning c _) (.inl rfl) rfl rfl rfl
  | confirm k =>
    obtain ⟨c, -, ⟨confirmation, -, rfl⟩ | ⟨e, -, rfl⟩⟩ := confirm_cases hs <;>
      exact h.move (k := k) (p := .returning c _) (.inl rfl) rfl rfl rfl
  | pushBack k =>
    obtain ⟨c, outcome, -, rfl⟩ := pushBack_cases hs
    exact h.move (k := k) (p := .releasing outcome) (.inl rfl) rfl rfl rfl
  | release k =>
    obtain ⟨outcome, -, rfl⟩ := release_cases hs
    exact h.move (k := k) (p := .done outcome) (.inl rfl) rfl rfl rfl
  | cancel k =>
    obtain ⟨-, rfl⟩ | ⟨-, rfl⟩ | ⟨c, -, rfl⟩ := cancel_cases hs
    · exact h.move (k := k) (p := .done _) (.inl rfl) rfl rfl rfl
    · exact h.move (k := k) (p := .releasing _) (.inl rfl) rfl rfl rfl
    · exact h.move (k := k) (p := .returning c _) (.inl rfl) rfl rfl rfl
  | route c k =>
    obtain ⟨-, -, rfl⟩ := route_cases hs
    exact h.frame rfl rfl rfl
  | giveBack c k replyCode replyText => exact h.giveBack hs
  | resolve c k acked => exact h.resolve hs
  | die c error =>
    obtain rfl := die_cases hs
    exact h.disconnect c error
  | close j =>
    obtain ⟨-, rfl⟩ := close_cases hs
    exact h.frame rfl rfl rfl
  | takePermits j =>
    obtain ⟨-, ⟨-, rfl⟩ | ⟨-, -, rfl⟩⟩ := takePermits_cases hs <;> exact h.frame rfl rfl rfl
  | closePermits j =>
    obtain ⟨took, -, rfl⟩ := closePermits_cases hs
    exact h.frame rfl rfl rfl
  | takeIdle j =>
    obtain ⟨took, -, rfl⟩ := takeIdle_cases hs
    exact h.frame rfl rfl rfl
  | closeChannel j result =>
    obtain ⟨took, c, rest, first, after, -, rfl | rfl⟩ := closeChannel_cases hs
    · exact h.frame rfl rfl rfl
    · exact (h.disconnect c _).frame rfl rfl rfl
  | closeDone j =>
    obtain ⟨took, result, -, rfl⟩ := closeDone_cases hs
    exact h.frame rfl rfl rfl

theorem reachable_owed (h : Reachable system s) : Owed s := by
  refine h.strengthen (K := Owned) (fun _ => owned_of_reach) ?_ fun _ _ _ o _ ho _ hs => ho.step o hs
  rintro _ ⟨publishConcurrency, rfl⟩
  exact ⟨by rintro k c ⟨⟩, fun c hc => absurd rfl hc⟩

/-! ## The steps of a call -/

/-- How far a call is from its end, with its answer to come. -/
def State.left (s : State) (k : ℕ) : ℕ :=
  2 * (s.phase k).rank + if (s.answer k).isNone then 1 else 0

/-- A call that has its permit goes on, or is answered. -/
theorem next_own (h : Reachable system s) (hk : (s.phase k).permit = 1) : ∃ a t,
    a.serves k ∧ step s a = some t ∧ t.left k < s.left k ∧
      ((t.phase k).permit = 1 ∧ t.permits = s.permits ∨
        (t.phase k).ended = true ∧ t.permits = s.permits + 1) := by
  have goes : ∀ (a : Action) (p : Phase) (t : State), a.caller = some k → a.cancels = false →
      step s a = some t → t.phase = Function.update s.phase k p → t.answer = s.answer →
      p.rank < (s.phase k).rank →
      (p.permit = 1 ∧ t.permits = s.permits ∨ p.ended = true ∧ t.permits = s.permits + 1) →
      ∃ a t, a.serves k ∧ step s a = some t ∧ t.left k < s.left k ∧
        ((t.phase k).permit = 1 ∧ t.permits = s.permits ∨
          (t.phase k).ended = true ∧ t.permits = s.permits + 1) := by
    intro a p t hcaller hcancels hs phase answer hp hpermit
    have hphase : t.phase k = p := by rw [phase, Function.update_self]
    refine ⟨a, t, .inl ⟨hcaller, hcancels⟩, hs, ?_, by rwa [hphase]⟩
    unfold State.left
    rw [hphase, answer]
    omega
  cases hp : s.phase k with
  | idle | waiting | done _ =>
    rw [hp] at hk
    cases hk
  | permitted =>
    cases hidle : s.idle with
    | nil =>
      exact goes (.pop k) .opening (s.setPhase k .opening) rfl rfl
        (by simp [step, stepPop, hp, hidle]) rfl rfl (by simp [hp, Phase.rank]) (.inl ⟨rfl, rfl⟩)
    | cons c rest =>
      by_cases hconn : (s.channels c).connected = true
      · exact goes (.pop k) (.leased c) { s.setPhase k (.leased c) with idle := rest } rfl rfl
          (by simp [step, stepPop, hp, hidle, hconn]) rfl rfl (by simp [hp, Phase.rank])
          (.inl ⟨rfl, rfl⟩)
      · exact goes (.pop k) .opening { s.setPhase k .opening with idle := rest } rfl rfl
          (by simp [step, stepPop, hp, hidle, hconn]) rfl rfl (by simp [hp, Phase.rank])
          (.inl ⟨rfl, rfl⟩)
  | opening =>
    exact goes (.opened k (.ok ())) (.leased s.next)
      { (s.setPhase k (.leased s.next)).setChannel s.next ⟨true, [], []⟩ with next := s.next + 1 }
      rfl rfl (by simp [step, stepOpened, hp]) rfl rfl (by simp [hp, Phase.rank]) (.inl ⟨rfl, rfl⟩)
  | leased c =>
    by_cases hconn : (s.channels c).connected = true
    · exact goes (.publish k none) (.sending c) ((s.setPhase k (.sending c)).setChannel c
        { s.channels c with pending := (s.channels c).pending ++ [k] }) rfl rfl
        (by simp [step, stepPublish, hp, hconn]) rfl rfl (by simp [hp, Phase.rank])
        (.inl ⟨rfl, rfl⟩)
    · let gone : LapinError := .invalidChannelState .closed
      let back : Phase := .returning c (.returned (.error (amqp gone)))
      exact goes (.publish k (some gone)) back (s.setPhase k back) rfl rfl
        (by simp [step, stepPublish, hp, back]) rfl rfl (by simp [hp, Phase.rank, back])
        (.inl ⟨rfl, rfl⟩)
  | sending c =>
    exact goes (.sent k none) (.confirming c) (s.setPhase k (.confirming c)) rfl rfl
      (by simp [step, stepSent, hp]) rfl rfl (by simp [hp, Phase.rank]) (.inl ⟨rfl, rfl⟩)
  | confirming c =>
    cases hanswer : s.answer k with
    | none =>
      -- The channel still has the tag, and can answer it.
      have owed := reachable_owed h
      have htag := owed.tag k c (by rw [hp]; rfl) hanswer
      have hconn := owed.alive c (List.ne_nil_of_mem htag)
      obtain ⟨t, ht⟩ : ∃ t, step s (.resolve c k false) = some t :=
        Option.isSome_iff_exists.mp (by simp [step, stepResolve, htag, hconn])
      refine ⟨_, t, .inr rfl, ht, ?_⟩
      obtain ⟨-, -, -, rfl⟩ := resolve_cases ht
      refine ⟨?_, .inl ⟨hk, rfl⟩⟩
      simp [State.left, State.setChannel, hanswer]
    | some answer =>
      let result := answer.mapError amqp >>= fun x => confirmationToResult x (s.queue k)
      refine goes (.confirm k) (.returning c (.returned result)) (s.setPhase k
        (.returning c (.returned result))) rfl rfl ?_ rfl rfl (by simp [hp, Phase.rank])
        (.inl ⟨rfl, rfl⟩)
      cases answer <;> simp [step, stepConfirm, hp, hanswer, result] <;> rfl
  | returning c outcome =>
    exact goes (.pushBack k) (.releasing outcome)
      { s.setPhase k (.releasing outcome) with idle := c :: s.idle } rfl rfl
      (by simp [step, stepPushBack, hp]) rfl rfl (by simp [hp, Phase.rank]) (.inl ⟨rfl, rfl⟩)
  | releasing outcome =>
    exact goes (.release k) (.done outcome)
      { s.setPhase k (.done outcome) with permits := s.permits + 1 } rfl rfl
      (by simp [step, stepRelease, hp]) rfl rfl (by simp [hp, Phase.rank]) (.inr ⟨rfl, rfl⟩)

/-! ## Runs that serve -/

/-- The call has come to its end in between, and its permit is free. -/
def Frees (k : ℕ) (s t : State) : Prop := (t.phase k).ended = true ∧ t.permits = s.permits + 1

/-- A call with a permit comes to its end by itself, but for its answer, and frees the permit. -/
theorem finishes (h : Reachable system s) (hk : (s.phase k).permit = 1) : ∃ rest t,
    (∀ a ∈ rest, a.serves k) ∧ system.run s rest = some t ∧ (t.phase k).ended = true ∧
      t.permits = s.permits + 1 := by
  have next : ∀ v, Reachable system v ∧ (v.phase k).permit = 1 → ∃ a u, a.serves k ∧
      system.step v a = some u ∧ u.left k < v.left k ∧
        ((Reachable system u ∧ (u.phase k).permit = 1) ∧ (∀ t, Frees k u t → Frees k v t) ∨
          Frees k v u) := by
    rintro v ⟨hv, hpermit⟩
    obtain ⟨a, u, hserves, hu, hless, ⟨hstill, hsame⟩ | hended⟩ := next_own hv hpermit
    · refine ⟨a, u, hserves, hu, hless, .inl ⟨⟨hv.next trivial hu, hstill⟩, fun t ht => ?_⟩⟩
      exact ⟨ht.1, hsame ▸ ht.2⟩
    · exact ⟨a, u, hserves, hu, hless, .inr hended⟩
  obtain ⟨rest, t, -, hall, hrun, hended, hfreed⟩ := run_until next ⟨h, hk⟩
  exact ⟨rest, t, hall, hrun, hended, hfreed⟩

end Queuey.Rabbit.ConfirmPool
