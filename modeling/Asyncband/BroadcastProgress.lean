import Asyncband.BroadcastCoverage

/-! No waiting producer of a bounded broadcast channel is stranded.
A step inside the semaphore moves permits from the call that takes it to the futures at
the front of the queue. Every party is weighed before and after; the sums over all
parties then show that whoever is still waiting stays covered. -/
namespace Asyncband
namespace BoundedBroadcast

open Semaphore (Hint Settled isGranted owners)

variable {T W : Type} {sem sem' : Semaphore.State W} {k n : ℕ}

theorem grant_le (sem : Semaphore.State W) (f : ℕ) : grant sem f ≤ 1 := by
  unfold grant
  split <;> omega

/-- How the weight of a party changes when its future gets `k` and its call hands on `n`. -/
theorem Stage.trade_room (stage : Stage T W)
    (hcall : ∀ c, stage.call = some c → toHand sem c ≤ toHand sem' c+n ∧
      consumed sem c ≤ consumed sem' c+n)
    (hgrant : ∀ g, stage.future = some g → grant sem g+k ≤ grant sem' g)
    (hnone : stage.future = none → k = 0) :
    stage.granted sem+stage.inFlight sem+k ≤ stage.granted sem'+stage.inFlight sem'+n := by
  cases stage with
  | polling _ _ f c | dropping f c =>
    have hc := hcall c rfl
    have hf := hgrant f rfl
    simp only [granted,inFlight]
    omega
  | releasing c =>
    have hc := hcall c rfl
    have hk := hnone rfl
    simp only [granted,inFlight]
    omega
  | parked _ f | leaving f =>
    have hf := hgrant f rfl
    simp only [granted,inFlight]
    omega
  | _ =>
    have hk := hnone rfl
    simp only [granted,inFlight]
    omega

theorem Stage.trade_reach {front front' : List ℕ} (stage : Stage T W)
    (hcall : ∀ c, stage.call = some c → toHand sem c ≤ toHand sem' c+n)
    (hgrant : ∀ g, stage.future = some g → grant sem g+k ≤ grant sem' g)
    (hahead : ∀ g, stage.future = some g →
      (if g ∈ front' then 1 else 0)+k ≤ if g ∈ front then 1 else 0)
    (hnone : stage.future = none → k = 0) :
    stage.ahead front'+stage.inFlight sem+k ≤ stage.ahead front+stage.inFlight sem'+n := by
  cases stage with
  | polling _ _ f | parked _ f =>
    have hf := hahead f rfl
    simp only [ahead,inFlight]
    omega
  | dropping f c =>
    have hc := hcall c rfl
    have hf := hgrant f rfl
    simp only [ahead,inFlight]
    omega
  | releasing c =>
    have hc := hcall c rfl
    have hk := hnone rfl
    simp only [ahead,inFlight]
    omega
  | leaving f =>
    have hf := hgrant f rfl
    simp only [ahead,inFlight]
    omega
  | _ =>
    have hk := hnone rfl
    simp only [ahead,inFlight]
    omega

section Steps

variable [Wake W] {s s' : State T W} {p : ℕ}

/-- A step inside the semaphore that serves the futures `given`: the call of party `q`
pays for them, all other parties can only gain. -/
theorem Covered.served (hO : Ok s) {sem : Semaphore.State W} (given : List ℕ) {q f : ℕ}
    {stage : Stage T W} (hq : s.parties[q]? = some stage) (hnd : given.Nodup)
    (hsub : ∀ g ∈ given, g ∈ s.queue)
    (hreleasing : ReleasingAll s → ReleasingAll {s with txPermits := sem})
    (hroom : stage.granted s.txPermits+stage.inFlight s.txPermits+
        Table.among Stage.future given stage ≤
      stage.granted sem+stage.inFlight sem+given.length)
    (hrooms : ∀ (j : ℕ) other, j ≠ q → s.parties[j]? = some other →
      other.granted s.txPermits+other.inFlight s.txPermits+
        Table.among Stage.future given other ≤ other.granted sem+other.inFlight sem)
    (hreach : ∀ front back, s.queue = front++f::back →
      ∃ front' back', owners sem.waiters = front'++f::back' ∧
        stage.ahead front'+stage.inFlight s.txPermits+Table.among Stage.future given stage ≤
          stage.ahead front+stage.inFlight sem+given.length ∧
        ∀ (j : ℕ) other, j ≠ q → s.parties[j]? = some other →
          other.ahead front'+other.inFlight s.txPermits+Table.among Stage.future given other ≤
            other.ahead front+other.inFlight sem)
    (hf : Covered s f) : Covered {s with txPermits := sem} f := by
  have hgiven : given.length ≤ Table.total (Table.among Stage.future given) s.parties :=
    Table.length_le_total_among hnd fun g hg => hO.owned g (hsub g hg)
  rcases hf with hr | ⟨hr,hover | hroomy | ⟨front,back,hqueue,hle⟩⟩
  · exact Or.inl (hreleasing hr)
  · exact Or.inr ⟨hr,Or.inl hover⟩
  · refine Or.inr ⟨hr,Or.inr (Or.inl ?_)⟩
    have htrade := Table.total_trade hq hroom hrooms
    rw [Table.total_add,Table.total_add] at htrade
    simp only [State.granted,State.inFlight] at *
    omega
  · obtain ⟨front',back',hqueue',hself,hothers⟩ := hreach front back hqueue
    refine Or.inr ⟨hr,Or.inr (Or.inr ⟨front',back',hqueue',?_⟩)⟩
    have htrade := Table.total_trade hq hself hothers
    rw [Table.total_add,Table.total_add] at htrade
    simp only [State.ahead,State.inFlight] at *
    omega

section Advance

open Semaphore (Effect Shifted)

variable {sem sem' : Semaphore.State W} {c : ℕ} {call call' : Semaphore.Call W}
  {stage : Stage T W} {given : List ℕ}

theorem grant_shifted (hH : Hint sem) (hH' : Hint sem') {own : Option ℕ}
    (hshift : Shifted sem sem' own given) {g : ℕ} (hg : some g ≠ own) :
    grant sem g+(if g ∈ given then 1 else 0) ≤ grant sem' g := by
  have hiff := hshift.isGranted_iff hH hH' hg
  have hnot : g ∈ given → isGranted sem g = false := by
    intro hm
    rw [Bool.eq_false_iff]
    exact fun hgranted =>
      ((Semaphore.isGranted_iff hH.inv.queue).mp hgranted).2 (hshift.mem hm).1
  unfold grant
  by_cases hm : g ∈ given
  · simp [hm,hnot hm,hiff]
  · simp [hm,hiff]

theorem StageOk.other (hok : StageOk sem stage) (h : Effect sem c call call' sem')
    (hne : stage.call ≠ some c) : StageOk sem' stage := by
  intro d hcall
  obtain ⟨other,hd,hserves,hsettled⟩ := hok d hcall
  refine ⟨other,?_,hserves,fun ha f hf => h.settled (hsettled ha f hf)⟩
  rw [h.calls_eq,List.getElem?_set_ne,hd]
  rintro rfl
  exact hne hcall

theorem Stage.Serves.next (hserves : stage.Serves call) (h : Effect sem c call call' sem') :
    stage.Serves call' ∨ call'.Resting := by
  rcases h.resting with hr | ⟨hintent,hstarted⟩
  · exact Or.inr hr
  · have hnot := Semaphore.Call.intent_of_not_started hstarted
    cases stage with
    | polling value waker f d => exact Or.inl (hintent.trans hserves)
    | dropping f d =>
      cases hserves
      exact Or.inr ⟨hintent,hstarted⟩
    | releasing d =>
      obtain ⟨n,rfl⟩ := hserves
      exact absurd hintent hnot.1
    | notifying d =>
      cases hserves
      exact absurd hintent hnot.2
    | _ => cases hserves

theorem StageOk.own (hok : StageOk sem stage) (h : Effect sem c call call' sem')
    (hc : sem.calls[c]? = some call) (hcall : stage.call = some c) : StageOk sem' stage := by
  intro d hd
  cases hcall.symm.trans hd
  obtain ⟨other,hother,hserves,-⟩ := hok c hcall
  cases hc.symm.trans hother
  refine ⟨call',?_,?_,fun ha f hf => ?_⟩
  · rw [h.calls_eq]
    exact Table.getElem?_set_self' hc call'
  · rcases hserves with hserves | hold
    · exact hserves.next h
    · rcases h.resting with hr | ⟨hintent,hstarted⟩
      · exact Or.inr hr
      · exact Or.inr ⟨hintent.trans hold.1,hstarted⟩
  · have hdone : call' = .finished .acquired := by
      cases call' with
      | finished outcome => cases outcome <;> first | rfl | cases ha
      | _ => cases ha
    rcases h.acquired with ⟨hne,-⟩ | ⟨-,n,hn,-⟩
    · exact absurd hdone hne
    · rcases Stage.Serves.intent_cases hserves with ⟨_,_,_,_,rfl,hi⟩ | hi | hi | hi
      · cases hf
        exact h.acquired_settled hdone hi
      all_goals
        rw [hi] at hn
        cases hn

/-- What a step inside the semaphore means for a party whose call hands on `n` permits,
unless the step ends its own future. -/
theorem Shifted.trade (x : Stage T W) (hH : Hint sem) (hH' : Hint sem') {own : Option ℕ} {n : ℕ}
    (hshift : Shifted sem sem' own given)
    (hcall : ∀ d, x.call = some d → toHand sem d ≤ toHand sem' d+n ∧
      consumed sem d ≤ consumed sem' d+n) (hown : ∀ g, x.future = some g → some g ≠ own) :
    x.granted sem+x.inFlight sem+Table.among Stage.future given x ≤
        x.granted sem'+x.inFlight sem'+n ∧
      ∀ front front', (∀ g, some g ≠ own →
          (if g ∈ front' then 1 else 0)+(if g ∈ given then 1 else 0) ≤ if g ∈ front then 1 else 0) →
        x.ahead front'+x.inFlight sem+Table.among Stage.future given x ≤
          x.ahead front+x.inFlight sem'+n := by
  have hgrant (g : ℕ) (hg : x.future = some g) :
      grant sem g+Table.among Stage.future given x ≤ grant sem' g := by
    rw [Table.among_some hg]
    exact grant_shifted hH hH' hshift (hown g hg)
  have hnone := fun hn : x.future = none => Table.among_none hn given
  refine ⟨x.trade_room hcall hgrant hnone,fun front front' hahead => ?_⟩
  refine x.trade_reach (fun d hd => (hcall d hd).1) hgrant (fun g hg => ?_) hnone
  rw [Table.among_some hg]
  exact hahead g (hown g hg)

theorem advance_covered (hO : Ok s) {q : ℕ} (hq : s.parties[q]? = some stage)
    (hcall : stage.call = some c) (hc : s.txPermits.calls[c]? = some call)
    (h : Effect s.txPermits c call call' sem') (hH' : Hint sem')
    (hpassed : Semaphore.Passed s.txPermits sem' call call')
    (hnotify : call = .started .notifyAll → owners sem'.waiters = [])
    (hrunning : call.isAcquired = false) {i f : ℕ}
    (hp : Parked {s with txPermits := sem'} i f) : Covered {s with txPermits := sem'} f := by
  obtain ⟨⟨value,hi⟩,hwaiting⟩ := hp
  have hwaiting : f ∈ owners sem'.waiters := hwaiting
  have hserves := hO.stage q stage hq c hcall
  obtain ⟨other,hother,hserves,-⟩ := hserves
  cases hc.symm.trans hother
  have hself : sem'.calls[c]? = some call' := by
    rw [h.calls_eq]
    exact Table.getElem?_set_self' hc call'
  have hhand : toHand s.txPermits c = call.toHand ∧ toHand sem' c = call'.toHand := by
    simp [toHand,hc,hself]
  have hzero : consumed s.txPermits c = 0 := by simp [consumed,hc,hrunning]
  have hiq : i ≠ q := by
    rintro rfl
    cases hi.symm.trans hq
    cases hcall
  -- the calls of the other parties are untouched
  have hcalls (j : ℕ) (other : Stage T W) (hjq : j ≠ q) (hj : s.parties[j]? = some other) (d : ℕ)
      (hd : other.call = some d) : toHand s.txPermits d ≤ toHand sem' d+0 ∧
        consumed s.txPermits d ≤ consumed sem' d+0 := by
    have hne := hO.calls.ne hq hj hjq hcall hd
    simp [toHand,consumed,h.calls_eq,List.getElem?_set_ne (Ne.symm hne)]
  have hreleasing : ReleasingAll s → ReleasingAll {s with txPermits := sem'} := by
    rintro ⟨j,hj⟩
    refine ⟨j,hj.imp id fun hd => ?_⟩
    obtain ⟨d,hj,hd⟩ := hd
    refine ⟨d,hj,?_⟩
    have hne : d ≠ c := by
      rintro rfl
      cases hc.symm.trans hd
      rw [hnotify rfl] at hwaiting
      cases hwaiting
    show sem'.calls[d]? = _
    rw [h.calls_eq,List.getElem?_set_ne (Ne.symm hne),hd]
  have hfutures {g : ℕ} (hg : stage.future = some g) (j : ℕ) (other : Stage T W) (hjq : j ≠ q)
      (hj : s.parties[j]? = some other) : ∀ k, other.future = some k → some k ≠ some g :=
    fun k hk heq => hO.futures.ne hq hj hjq hg hk (Option.some.inj heq)
  cases hpassed with
  | clear howners =>
    rw [howners] at hwaiting
    cases hwaiting
  | hand given hshift hpaid =>
    have hf : f ∈ s.queue := hshift.mem_old (Option.some_ne_none f) hwaiting
    have hothers (j : ℕ) (other : Stage T W) (hjq : j ≠ q) (hj : s.parties[j]? = some other) :=
      Shifted.trade other hO.hint hH' hshift (hcalls j other hjq hj) fun g _ =>
        Option.some_ne_none g
    have hmine := Shifted.trade (n:=given.length) stage hO.hint hH' hshift (fun d hd => by
      cases hcall.symm.trans hd
      rw [hhand.1,hhand.2,hzero]
      omega) fun g _ => Option.some_ne_none g
    refine Covered.served hO given hq (List.Nodup.of_append_left (hshift.nodup hO.hint))
      (fun g hg => (hshift.mem hg).1) hreleasing hmine.1
      (fun j other hjq hj => (hothers j other hjq hj).1) (fun front back hqueue => ?_)
      (hO.covered i f ⟨⟨value,hi⟩,hf⟩)
    obtain ⟨front',back',hqueue',hahead⟩ := hshift.split hO.hint
      (Option.some_ne_none f) hqueue hwaiting
    exact ⟨front',back',hqueue',hmine.2 front front' hahead,
      fun j other hjq hj => (hothers j other hjq hj).2 front front' hahead⟩
  | poll g hintent hshift howners hdone =>
    obtain ⟨v,w,d,rfl⟩ := Stage.Serves.polling hserves hintent
    cases hcall
    have hfg : some f ≠ some g := hfutures rfl i _ hiq hi f rfl
    have hothers (j : ℕ) (other : Stage T W) (hjq : j ≠ q) (hj : s.parties[j]? = some other) :=
      Shifted.trade other hO.hint hH' hshift (hcalls j other hjq hj) (hfutures rfl j other hjq hj)
    have hmine : grant s.txPermits g ≤ grant sem' g+consumed sem' c := by
      have hle := grant_le s.txPermits g
      rcases hdone with rfl | hnot
      · have hone : consumed sem' c = 1 := by simp [consumed,hself,Semaphore.Call.isAcquired]
        omega
      · have hnone : grant s.txPermits g = 0 := by
          have hiff := Semaphore.isGranted_iff hO.hint.inv.queue (f:=g)
          simp [grant,hiff,hnot]
        omega
    refine Covered.served hO [] hq List.nodup_nil (by simp) hreleasing ?_
      (fun j other hjq hj => (hothers j other hjq hj).1) (fun front back hqueue => ?_)
      (hO.covered i f ⟨⟨value,hi⟩,hshift.mem_old hfg hwaiting⟩)
    · simp only [Stage.granted,Stage.inFlight,hzero,Table.among,List.length_nil]
      simpa using hmine
    · have hsame : ∀ k, some k ≠ some g →
          (if k ∈ front then 1 else 0)+(if k ∈ ([] : List ℕ) then 1 else 0) ≤
            if k ∈ front then 1 else 0 := by
        simp
      have hrest (j : ℕ) (other : Stage T W) (hjq : j ≠ q) (hj : s.parties[j]? = some other) :=
        (hothers j other hjq hj).2 front front hsame
      rcases howners with heq | heq
      · exact ⟨front,back,heq.trans hqueue,by simp [Stage.inFlight,Table.among],hrest⟩
      · refine ⟨front,back++[g],?_,by simp [Stage.inFlight,Table.among],hrest⟩
        rw [heq,show owners s.txPermits.waiters = _ from hqueue]
        simp
  | cancel g given hdrop hshift hpaid =>
    obtain ⟨d,rfl⟩ := Stage.Serves.dropping hserves hdrop
    cases hcall
    subst hdrop
    have hfg : some f ≠ some g := hfutures rfl i _ hiq hi f rfl
    have hothers (j : ℕ) (other : Stage T W) (hjq : j ≠ q) (hj : s.parties[j]? = some other) :=
      Shifted.trade other hO.hint hH' hshift (hcalls j other hjq hj) (hfutures rfl j other hjq hj)
    have hnone : Table.among Stage.future given (.dropping g c : Stage T W) = 0 := by
      have hfuture : Stage.future (.dropping g c : Stage T W) = some g := rfl
      rw [Table.among_some hfuture,if_neg]
      exact fun hm => (hshift.mem hm).2 rfl
    have hpays : grant s.txPermits g+toHand s.txPermits c ≤
        grant sem' g+toHand sem' c+given.length := by
      have hstart : toHand s.txPermits c = 0 := hhand.1
      have hpaid : call'.toHand+given.length = grant s.txPermits g := hpaid
      omega
    refine Covered.served hO given hq (List.Nodup.of_append_left (hshift.nodup hO.hint))
      (fun k hk => (hshift.mem hk).1) hreleasing ?_
      (fun j other hjq hj => (hothers j other hjq hj).1) (fun front back hqueue => ?_)
      (hO.covered i f ⟨⟨value,hi⟩,hshift.mem_old hfg hwaiting⟩)
    · simp only [Stage.granted,Stage.inFlight,hnone]
      omega
    · obtain ⟨front',back',hqueue',hahead⟩ := hshift.split hO.hint hfg hqueue hwaiting
      refine ⟨front',back',hqueue',?_,
        fun j other hjq hj => (hothers j other hjq hj).2 front front' hahead⟩
      simp only [Stage.ahead,Stage.inFlight,hnone]
      omega

theorem advance_ok (hO : Ok s) {spurious : Bool} (h : next s (.advance p spurious) = some s') :
    Ok s' := by
  simp only [next] at h
  split at h
  · next c hc =>
    obtain ⟨stage,hp,hcall⟩ := Option.bind_eq_some_iff.mp hc
    obtain ⟨sem,hn,rfl⟩ := Option.map_eq_some_iff.mp h
    obtain ⟨call,call',hcalls,heffect,hH,hpassed,hnotify⟩ := hO.hint.advance hn
    have hrunning : call.isAcquired = false := by
      cases call with
      | finished outcome => simp [Semaphore.next,Semaphore.advance,hcalls] at hn
      | _ => rfl
    have hlength : sem.acquires.length = s.txPermits.acquires.length := by
      rcases heffect.acquires with heq | ⟨g,a,a',-,heq,-⟩ <;> simp [heq]
    refine ⟨hH,hlength ▸ hO.futures,?_,?_,?_,hO.counted,hO.bounded,fun i f hf =>
      advance_covered hO hp hcall hcalls heffect hH hpassed hnotify hrunning hf⟩
    · show Table.Unique Stage.call s.parties sem.calls.length
      rw [heffect.calls_eq,List.length_set]
      exact hO.calls
    · intro j other hj
      by_cases hjp : j = p
      · subst hjp
        cases hp.symm.trans hj
        exact (hO.stage j stage hj).own heffect hcalls hcall
      · refine (hO.stage j other hj).other heffect fun hother => ?_
        exact hO.calls.ne hp hj hjp hcall hother rfl
    · intro f hf
      obtain ⟨call₀,hcall₀,hserves,-⟩ := hO.stage p stage hp c hcall
      cases hcalls.symm.trans hcall₀
      have hf : f ∈ owners sem.waiters := hf
      -- a future other than the one of this call was waiting before
      have hmine {g : ℕ} {given : List ℕ} (hshift : Shifted s.txPermits sem (some g) given)
          (hg : stage.future = some g) : ∃ stage ∈ s.parties, stage.future = some f := by
        by_cases hfg : f = g
        · exact ⟨stage,List.mem_of_getElem? hp,hfg ▸ hg⟩
        · exact hO.owned f (hshift.mem_old (by simpa using hfg) hf)
      cases hpassed with
      | clear howners =>
        rw [howners] at hf
        cases hf
      | hand given hshift => exact hO.owned f (hshift.mem_old (Option.some_ne_none f) hf)
      | poll g hintent hshift =>
        obtain ⟨_,_,_,rfl⟩ := Stage.Serves.polling hserves hintent
        exact hmine hshift rfl
      | cancel g given hdrop hshift =>
        obtain ⟨_,rfl⟩ := Stage.Serves.dropping hserves hdrop
        exact hmine hshift rfl
  · cases h

end Advance

theorem next_ok {a : Action T W} (hO : Ok s) (h : next s a = some s') : Ok s' := by
  cases a with
  | send value waker => exact send_ok hO h
  | trySend value => exact trySend_ok hO h
  | announce p => exact announce_ok hO h
  | poll p waker => exact poll_ok hO h
  | recheck p => exact recheck_ok hO h
  | cancel p => exact cancel_ok hO h
  | leave p => exact leave_ok hO h
  | subscribe => exact subscribe_ok hO h
  | receive key => exact receive_ok hO h
  | dropReceiver key => exact dropReceiver_ok hO h
  | load p => exact load_ok hO h
  | advance p spurious => exact advance_ok hO h

theorem init_ok (h : (machine T W).init s) : Ok s := by
  obtain ⟨capacity,key,-,h⟩ := h
  unfold bounded at h
  split at h
  · cases h
    have hretained := (Backlog.fixed : Backlog T).subscribe_retained.1
    have hempty : (Backlog.fixed : Backlog T).retained = 0 := rfl
    refine ⟨Semaphore.new_hint W,.nil _ _,.nil _ _,by simp,?_,rfl,?_,?_⟩
    · intro f hf
      simp [State.queue,owners,Semaphore.new,WaitList.order_new] at hf
    · exact (hretained.trans hempty).trans_le (Nat.zero_le capacity)
    · rintro i f ⟨⟨value,hi⟩,-⟩
      simp at hi
  · cases h

theorem reachable_ok (h : (machine T W).Reachable s) : Ok s :=
  (machine T W).invariant Ok (fun _ => init_ok) (fun _ _ _ => next_ok) h

end Steps

/-- A parked producer is never stranded. While there are receivers, a `release_all` is on
its way, or the counter of versions is exhausted, or the free slots are covered by producers
that were told and permits in flight, or the permits in flight alone reach the producer.
Without receivers a `release_all` is on its way. So once nothing is on its way the channel
is full and has a receiver. -/
theorem no_stranding [Wake W] {s : State T W} (h : (machine T W).Reachable s) {p f : ℕ}
    (hp : Parked s p f) :
    (s.log.hasReceivers = true → ReleasingAll s ∨ Exhausted s ∨
      s.capacity-s.log.retained ≤ s.granted+s.inFlight ∨ InReach s f) ∧
    (s.log.hasReceivers = false → ReleasingAll s) ∧
    (¬ReleasingAll s → ¬Exhausted s → s.granted = 0 → s.inFlight = 0 →
      s.log.retained = s.capacity ∧ s.log.hasReceivers = true) := by
  have hO := reachable_ok h
  have hbounded := hO.bounded
  rcases hO.covered p f hp with hr | ⟨hr,hover | hroom | hreach⟩
  · exact ⟨fun _ => Or.inl hr,fun _ => hr,fun hnot => absurd hr hnot⟩
  · exact ⟨fun _ => Or.inr (Or.inl hover),by simp [hr],fun _ hnot => absurd hover hnot⟩
  · exact ⟨fun _ => Or.inr (Or.inr (Or.inl (by omega))),by simp [hr],
      fun _ _ hgranted hflight => ⟨by omega,hr⟩⟩
  · refine ⟨fun _ => Or.inr (Or.inr (Or.inr hreach)),by simp [hr],fun _ _ _ hflight => ?_⟩
    obtain ⟨front,back,-,hle⟩ := hreach
    omega

def threeSlots : State ℕ ℕ := ⟨3,Backlog.fixed.subscribe.2,Semaphore.new ℕ 0,0,[]⟩

theorem reachable_threeSlots (run : List (Action ℕ ℕ))
    (h : ((machine ℕ ℕ).exec threeSlots run).isSome = true) :
    (machine ℕ ℕ).Reachable (((machine ℕ ℕ).exec threeSlots run).getD threeSlots) := by
  obtain ⟨s,hs⟩ := Option.isSome_iff_exists.mp h
  exact ⟨threeSlots,run,⟨3,_,by decide,rfl⟩,fun _ _ => trivial,by simp [hs]⟩

def parkRun : List (Action ℕ ℕ) :=
  [.subscribe,.trySend 1,.trySend 2,.trySend 3,.receive 0,.receive 0,.receive 0,
    .send 10 5,.announce 0,.advance 0 false,.advance 0 false,.advance 0 false,.recheck 0,
    .send 11 6,.announce 1,.advance 1 false,.advance 1 false,.advance 1 false,.recheck 1]

theorem no_stranding_parkRun :
    ∃ s, (machine ℕ ℕ).exec threeSlots parkRun = some s ∧ Parked s 1 1 ∧
      s.log.retained = s.capacity ∧ s.log.hasReceivers = true := by
  refine ⟨_,rfl,⟨⟨11,rfl⟩,by decide⟩,?_⟩
  refine (no_stranding (reachable_threeSlots parkRun rfl) (p := 1) (f := 1)
    ⟨⟨11,rfl⟩,by decide⟩).2.2 ?_ (show ¬u64Max ≤ 3 by decide) rfl rfl
  rintro ⟨p,hp⟩
  change [Stage.parked 10 0,.parked 11 1][p]? = some .drained ∨
    ∃ c, [Stage.parked 10 0,.parked 11 1][p]? = some (.notifying c) ∧ _ at hp
  rcases p with _ | _ | p <;> simp at hp

/-- The first producer is cancelled and the slow receiver dropped. The only permit goes to
the cancelled future, which is still linked. -/
def cancelRun : List (Action ℕ ℕ) :=
  [.cancel 0,.leave 0,.dropReceiver 1,.load 2,.advance 2 false,.advance 2 false,.advance 2 false]

/-- Then three slots are free and a single permit is in flight, to be passed on by the
leaving future; no release is running. -/
theorem free_slots_exceed_permits : ∃ s : State ℕ ℕ, (machine ℕ ℕ).Reachable s ∧
    (∃ p f, Parked s p f) ∧ s.log.hasReceivers = true ∧ s.capacity-s.log.retained = 3 ∧
    s.granted = 0 ∧ s.inFlight = 1 ∧ ∃ value, s.parties =
      [.dropping 0 2,.parked value 1,.releasing 3] ∧
      s.txPermits.calls[3]? = some (.finished .returned) := by
  refine ⟨_,reachable_threeSlots (parkRun++cancelRun) rfl,⟨1,1,⟨11,rfl⟩,by decide⟩,?_⟩
  exact ⟨rfl,rfl,rfl,rfl,11,rfl,rfl⟩

end BoundedBroadcast
end Asyncband
