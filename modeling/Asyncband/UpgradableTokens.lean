import Asyncband.UpgradableRwLock

/-! Token ownership in the upgradable lock.
The tokens of all parties own exactly the permits that users of each semaphore hold,
and every future in a queue belongs to a party. Each piece of code between two
semaphore calls keeps this. -/
namespace Asyncband
namespace UpgradableRwLock

variable {V W : Type} {maxReaders : ℕ} {sem : Which → Semaphore.State W}

/-- The permits that a party owns while it asks for others. -/
def Purpose.tokens : Purpose → Which → ℕ
  | .access _, .reservation => 1
  | .upgrade, _ => 1
  | _, _ => 0

def Mode.tokens (maxReaders : ℕ) : Mode → Which → ℕ
  | .read, .data => 1
  | .write, .data => maxReaders
  | .upgradable, _ => 1
  | _, _ => 0

namespace Stage

def tokens (maxReaders : ℕ) : Stage → Which → ℕ
  | .waiting purpose _, which | .trying purpose, which | .cancelling purpose _, which =>
    purpose.tokens which
  | .guard mode, which => mode.tokens maxReaders which
  | .releasing access _ result, .data => access.getD 0+result.elim 0 (·.tokens maxReaders .data)
  | .releasing _ reservation result, .reservation =>
    reservation.toNat+result.elim 0 (·.tokens maxReaders .reservation)
  | .done, _ => 0

def future? : Stage → Option (Which × ℕ)
  | .waiting purpose f | .cancelling purpose f => some (purpose.which,f)
  | _ => none

def asks? : Stage → Option Purpose
  | .waiting purpose _ | .trying purpose => some purpose
  | _ => none

def intent (maxReaders : ℕ) : Stage → Semaphore.Intent
  | .waiting _ f => .poll f
  | .trying purpose => .tryAcquire (purpose.permits maxReaders)
  | _ => .other

end Stage

theorem Purpose.granted_tokens (h : 1 ≤ maxReaders) (purpose : Purpose) (which : Which) :
    purpose.granted.tokens maxReaders which =
      purpose.tokens which+if which = purpose.which then purpose.permits maxReaders else 0 := by
  rcases purpose with _ | kind | kind | _ <;> try rcases kind with _ | _
  all_goals
    cases which <;> simp [granted,Stage.tokens,tokens,Mode.tokens,Purpose.which,permits,Kind.permits]
  omega

theorem Purpose.refused_tokens (maxReaders : ℕ) (purpose : Purpose) (which : Which) :
    purpose.refused.tokens maxReaders which = purpose.tokens which := by
  cases purpose <;> cases which <;> rfl

theorem Purpose.cancelled_tokens (maxReaders : ℕ) (purpose : Purpose) (which : Which) :
    purpose.cancelled.tokens maxReaders which = purpose.tokens which := by
  cases purpose <;> cases which <;> rfl

theorem Stage.ended_tokens (maxReaders : ℕ) (stage : Stage) (which : Which) :
    stage.ended.tokens maxReaders which = stage.tokens maxReaders which := by
  cases stage with
  | trying purpose => exact purpose.refused_tokens maxReaders which
  | cancelling purpose f => exact purpose.cancelled_tokens maxReaders which
  | _ => rfl

theorem Purpose.granted_future (purpose : Purpose) : purpose.granted.future? = none := by
  rcases purpose with _ | _ | _ | _ <;> first | rfl | (rename_i kind; cases kind <;> rfl)

theorem Purpose.refused_future (purpose : Purpose) : purpose.refused.future? = none := by
  cases purpose <;> rfl

theorem Purpose.cancelled_future (purpose : Purpose) : purpose.cancelled.future? = none := by
  cases purpose <;> rfl

structure PartyOk (maxReaders : ℕ) (sem : Which → Semaphore.State W) (party : Party W) : Prop where
  call : ∀ which c, party.call = some (which,c) →
    Semaphore.Serving (sem which) c (party.stage.intent maxReaders)
  which : ∀ which c purpose, party.call = some (which,c) → party.stage.asks? = some purpose →
    which = purpose.which
  request : ∀ purpose f, party.stage = .waiting purpose f →
    (sem purpose.which).requested f = some (purpose.permits maxReaders)
  dropping : ∀ purpose f, party.stage = .cancelling purpose f →
    ∃ c, party.call = some (purpose.which,c) ∧ Semaphore.Dropping (sem purpose.which) c f

/-- The tokens own what users of the semaphores hold, and every queued future belongs
to a party. -/
structure Ok [Wake W] (s : State V W) : Prop where
  readers : 1 ≤ s.maxReaders
  readers_le : s.maxReaders ≤ usizeMax
  lease : ∀ which, Semaphore.Lease (permits s.maxReaders which) (s.sem which)
  held : ∀ which, Table.total (·.stage.tokens s.maxReaders which) s.parties = (s.sem which).held
  party : ∀ (p : ℕ) party, s.parties[p]? = some party → PartyOk s.maxReaders s.sem party
  queued : ∀ which f, Semaphore.Queued (s.sem which) f →
    ∃ (p : ℕ) (party : Party W), s.parties[p]? = some party ∧ party.stage.future? = some (which,f)

theorem later_update {which : Which} {sem' : Semaphore.State W} (h : Semaphore.Later (sem which) sem')
    (w : Which) : Semaphore.Later (sem w) (Function.update sem which sem' w) := by
  by_cases hw : w = which
  · subst hw
    rwa [Function.update_self]
  · rw [Function.update_of_ne hw]
    exact .refl (sem w)

theorem PartyOk.later {sem' : Which → Semaphore.State W} {party : Party W}
    (h : PartyOk maxReaders sem party) (hlater : ∀ w, Semaphore.Later (sem w) (sem' w)) :
    PartyOk maxReaders sem' party where
  call which c hc := (hlater which).serving c _ (h.call which c hc)
  which := h.which
  request purpose f hf := (hlater purpose.which).requested f _ (h.request purpose f hf)
  dropping purpose f hf := by
    obtain ⟨c,hc,hdrop⟩ := h.dropping purpose f hf
    exact ⟨c,hc,(hlater purpose.which).dropping c f hdrop⟩

theorem PartyOk.idle {stage : Stage} {waker : Option W} (h : stage.future? = none) :
    PartyOk maxReaders sem ⟨stage,none,waker⟩ where
  call := nofun
  which := nofun
  request purpose f hf := by
    simp only at hf
    simp [hf,Stage.future?] at h
  dropping purpose f hf := by
    simp only at hf
    simp [hf,Stage.future?] at h

section Steps

variable [Wake W] {s s' : State V W} {p : ℕ} {party new : Party W} {which : Which}
  {sem : Semaphore.State W} {purpose : Purpose} {waker : Option W} {stage : Stage} {c : ℕ}

theorem withMaxReaders_ok {value : V} {maxReaders : ℕ} (h₁ : 1 ≤ maxReaders)
    (h₂ : maxReaders ≤ usizeMax) : Ok (withMaxReaders W value maxReaders) where
  readers := h₁
  readers_le := h₂
  lease which := by
    apply Semaphore.new_lease
    cases which
    · show 1 ≤ usizeMax
      decide
    · exact h₂
  held _ := rfl
  party := by simp [withMaxReaders]
  queued which f hf := by
    obtain ⟨a,id,ha,-⟩ := hf
    simp [withMaxReaders,Semaphore.new] at ha

section

variable (h : Ok s)
include h

theorem Ok.move (hp : s.parties[p]? = some party)
    (hlease : Semaphore.Lease (permits s.maxReaders which) sem)
    (hlater : Semaphore.Later (s.sem which) sem)
    (hnew : PartyOk s.maxReaders (Function.update s.sem which sem) new)
    (hheld : sem.held+party.stage.tokens s.maxReaders which =
      (s.sem which).held+new.stage.tokens s.maxReaders which)
    (hrest : ∀ w, w ≠ which → new.stage.tokens s.maxReaders w = party.stage.tokens s.maxReaders w)
    (hqueued : ∀ f, Semaphore.Queued sem f →
      Semaphore.Queued (s.sem which) f ∨ new.stage.future? = some (which,f))
    (hfuture : ∀ w f, party.stage.future? = some (w,f) →
      Semaphore.Queued (Function.update s.sem which sem w) f →
      new.stage.future? = some (w,f)) : Ok ((s.setSem which sem).setParty p new) where
  readers := h.readers
  readers_le := h.readers_le
  lease w := by
    show Semaphore.Lease _ (Function.update s.sem which sem w)
    by_cases hw : w = which
    · subst hw
      rwa [Function.update_self]
    · rw [Function.update_of_ne hw]
      exact h.lease w
  held w := by
    have hset := Table.total_set (·.stage.tokens s.maxReaders w) hp new
    have hold := h.held w
    show Table.total (·.stage.tokens s.maxReaders w) (s.parties.set p new) =
      (Function.update s.sem which sem w).held
    by_cases hw : w = which
    · subst hw
      rw [Function.update_self]
      omega
    · rw [Function.update_of_ne hw]
      have hsame := hrest w hw
      omega
  party := by
    intro q other hq
    rcases Table.getElem?_set_cases hq with ⟨-,rfl⟩ | ⟨-,hq⟩
    · exact hnew
    · exact (h.party q other hq).later (later_update hlater)
  queued := by
    intro w f hf
    have hself : ((s.parties.set p new)[p]?) = some new := Table.getElem?_set_self' hp new
    by_cases hold : Semaphore.Queued (s.sem w) f
    · obtain ⟨q,other,hq,hother⟩ := h.queued w f hold
      by_cases hqp : q = p
      · subst hqp
        cases hp.symm.trans hq
        exact ⟨q,new,hself,hfuture w f hother hf⟩
      · refine ⟨q,other,?_,hother⟩
        show (s.parties.set p new)[q]? = some other
        rw [List.getElem?_set_ne (Ne.symm hqp)]
        exact hq
    · by_cases hw : w = which
      · subst hw
        have hf' : Semaphore.Queued sem f := by
          simpa [State.setSem,State.setParty] using hf
        exact ⟨p,new,hself,(hqueued f hf').resolve_left hold⟩
      · refine absurd ?_ hold
        simpa [State.setSem,State.setParty,Function.update_of_ne hw] using hf

theorem Ok.setParty (hp : s.parties[p]? = some party) (hnew : PartyOk s.maxReaders s.sem new)
    (htokens : new.stage.tokens s.maxReaders = party.stage.tokens s.maxReaders)
    (hfuture : party.stage.future? = none) : Ok (s.setParty p new) := by
  have hsame := Function.update_eq_self Which.data s.sem
  have hmove := h.move hp (h.lease .data) (.refl _) (by rwa [hsame])
    (by rw [htokens]) (fun w _ => by rw [htokens]) (fun f hf => Or.inl hf)
    (fun w f hf => by simp [hfuture] at hf)
  rwa [State.setSem,hsame] at hmove

theorem Ok.push (hnew : PartyOk s.maxReaders s.sem new)
    (htokens : ∀ w, new.stage.tokens s.maxReaders w = 0) :
    Ok {s with parties := s.parties++[new]} where
  readers := h.readers
  readers_le := h.readers_le
  lease := h.lease
  held w := by
    have hold := h.held w
    show Table.total _ (s.parties++[new]) = (s.sem w).held
    simp only [Table.total_append,Table.total_cons,Table.total_nil,htokens]
    omega
  party := by
    intro q other hq
    rcases Table.getElem?_push hq with hq | ⟨-,rfl⟩
    · exact h.party q other hq
    · exact hnew
  queued w f hf := by
    obtain ⟨q,other,hq,hother⟩ := h.queued w f hf
    exact ⟨q,other,Table.getElem?_push_old hq _,hother⟩

theorem acquire_ok (hp : s.parties[p]? = some party) (hacquire : acquire s p purpose waker = some s')
    (htokens : party.stage.tokens s.maxReaders = purpose.tokens) (hfuture : party.stage.future? = none) :
    Ok s' := by
  obtain ⟨sem,hsem,rfl⟩ := Option.map_eq_some_iff.mp hacquire
  obtain ⟨hlease,hheld,hlater,hrequested,hqueued⟩ := (h.lease purpose.which).create hsem
  apply h.move hp hlease hlater
  · refine ⟨nofun,nofun,?_,nofun⟩
    rintro _ _ ⟨rfl⟩
    rwa [Function.update_self]
  · rw [htokens,hheld]
    rfl
  · intro w _
    rw [htokens]
    rfl
  · intro f hf
    exact Or.inl (hqueued f hf)
  · intro w f hf
    simp [hfuture] at hf

/-- A party makes a call for its new stage and passes what the call releases to it. -/
theorem start_ok (hp : s.parties[p]? = some party) {op : Semaphore.Op W}
    (hstart : start s p stage waker which op = some s')
    (hintent : op.intent = stage.intent s.maxReaders) (hop : op.intent.leasing = true)
    (htokens : party.stage.tokens s.maxReaders which = op.released+stage.tokens s.maxReaders which)
    (hrest : ∀ w, w ≠ which → stage.tokens s.maxReaders w = party.stage.tokens s.maxReaders w)
    (hwhich : ∀ purpose, stage.asks? = some purpose → which = purpose.which)
    (hrequest : ∀ purpose f, stage = .waiting purpose f → party.stage = .waiting purpose f)
    (hdrop : ∀ purpose f, stage = .cancelling purpose f → which = purpose.which ∧ op = .drop f)
    (hfuture : stage.future? = party.stage.future?) : Ok s' := by
  obtain ⟨sem,hsem,rfl⟩ := Option.map_eq_some_iff.mp hstart
  have hle := Table.le_total (·.stage.tokens s.maxReaders which) hp
  rw [h.held which] at hle
  obtain ⟨hlease,hheld,hlater,hcall,hqueued⟩ := (h.lease which).make hsem hop (by omega)
  apply h.move hp hlease hlater
  · refine ⟨?_,?_,?_,?_⟩
    · rintro w c ⟨rfl⟩
      rw [Function.update_self]
      exact ⟨_,hcall,Or.inl hintent⟩
    · rintro w c purpose ⟨rfl⟩ hasks
      exact hwhich purpose hasks
    · intro purpose f hf
      exact (later_update hlater _).requested f _
        ((h.party p party hp).request purpose f (hrequest purpose f hf))
    · intro purpose f hf
      obtain ⟨rfl,rfl⟩ := hdrop purpose f hf
      refine ⟨_,rfl,Or.inl ?_⟩
      rwa [Function.update_self]
  · simp only
    omega
  · exact hrest
  · intro f hf
    exact Or.inl (hqueued f hf)
  · intro w f hf _
    rwa [← hfuture] at hf

theorem step_ok (hp : s.parties[p]? = some ⟨stage,none,waker⟩) (hstep : step s p stage waker = some s') :
    Ok s' := by
  cases stage with
  | waiting purpose f =>
    cases waker with
    | none => cases hstep
    | some waker =>
      exact start_ok h hp hstep rfl rfl (Nat.zero_add _).symm (fun _ _ => rfl)
        (fun _ hasks => by cases hasks; rfl) (fun _ _ hf => hf) nofun rfl
  | trying purpose =>
    exact start_ok h hp hstep rfl rfl (Nat.zero_add _).symm (fun _ _ => rfl)
      (fun _ hasks => by cases hasks; rfl) nofun nofun rfl
  | releasing access reservation result =>
    cases access with
    | some n =>
      apply start_ok h hp hstep rfl rfl _ _ nofun nofun nofun rfl
      · simp [Stage.tokens,Semaphore.Op.released]
      · rintro (_ | _) hw
        · rfl
        · exact absurd rfl hw
    | none =>
      cases reservation with
      | true =>
        apply start_ok h hp hstep rfl rfl _ _ nofun nofun nofun rfl
        · simp [Stage.tokens,Semaphore.Op.released]
        · rintro (_ | _) hw
          · exact absurd rfl hw
          · rfl
      | false =>
        cases result with
        | some mode =>
          cases hstep
          apply h.setParty hp (.idle rfl) _ rfl
          funext w
          cases w <;> simp [Stage.tokens]
        | none =>
          cases hstep
          apply h.setParty hp (.idle rfl) _ rfl
          funext w
          cases w <;> rfl
  | _ => cases hstep

theorem act_ok {use : Use V W} (hp : s.parties[p]? = some ⟨stage,none,none⟩)
    (hact : act s p stage use = some s') : Ok s' := by
  have hmove {new : Stage} (hp : s.parties[p]? = some ⟨stage,none,none⟩)
      (hguard : stage.future? = none) (hnew : new.future? = none)
      (htokens : ∀ w, new.tokens s.maxReaders w = stage.tokens s.maxReaders w) :
      Ok (s.setParty p ⟨new,none,none⟩) :=
    h.setParty hp (.idle hnew) (funext htokens) hguard
  have hreaders := h.readers
  cases stage with
  | waiting purpose f =>
    cases use with
    | poll waker =>
      exact start_ok h hp hact rfl rfl (Nat.zero_add _).symm (fun _ _ => rfl)
        (fun _ hasks => by cases hasks; rfl) (fun _ _ hf => hf) nofun rfl
    | cancel =>
      exact start_ok h hp hact rfl rfl (Nat.zero_add _).symm (fun _ _ => rfl) nofun nofun
        (fun _ _ hf => by cases hf; exact ⟨rfl,rfl⟩) rfl
    | _ => cases hact
  | guard mode =>
    cases mode with
    | read =>
      cases use with
      | drop =>
        cases hact
        exact hmove hp rfl rfl fun w => by cases w <;> rfl
      | _ => cases hact
    | write =>
      cases use with
      | drop =>
        cases hact
        exact hmove hp rfl rfl fun w => by cases w <;> rfl
      | downgrade =>
        cases hact
        apply hmove hp rfl rfl
        intro w
        cases w
        · rfl
        · show s.maxReaders-1+1 = s.maxReaders
          omega
      | store value =>
        cases hact
        exact ⟨h.readers,h.readers_le,h.lease,h.held,h.party,h.queued⟩
      | _ => cases hact
    | upgradable =>
      cases use with
      | drop | downgrade | tryUpgrade =>
        cases hact
        exact hmove hp rfl rfl fun w => by cases w <;> rfl
      | upgrade =>
        apply acquire_ok h hp hact _ rfl
        funext w
        cases w <;> rfl
      | _ => cases hact
  | _ => cases use <;> cases hact

theorem granted_ok (hp : s.parties[p]? = some party)
    (hlease : Semaphore.Lease (permits s.maxReaders purpose.which) sem)
    (hlater : Semaphore.Later (s.sem purpose.which) sem)
    (htokens : party.stage.tokens s.maxReaders = purpose.tokens)
    (hheld : sem.held = (s.sem purpose.which).held+purpose.permits s.maxReaders)
    (hqueued : ∀ f, Semaphore.Queued sem f → Semaphore.Queued (s.sem purpose.which) f ∨
      party.stage.future? = some (purpose.which,f))
    (hfuture : ∀ w f, party.stage.future? = some (w,f) → w = purpose.which ∧ ¬Semaphore.Queued sem f) :
    Ok ((s.setSem purpose.which sem).setParty p ⟨purpose.granted,none,none⟩) := by
  have hgranted := purpose.granted_tokens h.readers
  apply h.move hp hlease hlater (.idle purpose.granted_future)
  · simp only [htokens,hgranted,if_true]
    omega
  · intro w hw
    simp [htokens,hgranted,hw]
  · intro f hf
    refine (hqueued f hf).imp_right fun hself => ?_
    exact absurd hf (hfuture _ f hself).2
  · intro w f hf hq
    obtain ⟨rfl,hsettled⟩ := hfuture w f hf
    rw [Function.update_self] at hq
    exact absurd hq hsettled

theorem resumed_ok (hp : s.parties[p]? = some party)
    (hlease : Semaphore.Lease (permits s.maxReaders which) sem)
    (hlater : Semaphore.Later (s.sem which) sem) (hheld : sem.held = (s.sem which).held)
    (hqueued : ∀ f, Semaphore.Queued sem f → Semaphore.Queued (s.sem which) f ∨
      party.stage.future? = some (which,f))
    (hnew : PartyOk s.maxReaders (Function.update s.sem which sem) new)
    (htokens : ∀ w, new.stage.tokens s.maxReaders w = party.stage.tokens s.maxReaders w)
    (hfuture : ∀ w f, party.stage.future? = some (w,f) →
      Semaphore.Queued (Function.update s.sem which sem w) f → new.stage.future? = some (w,f)) :
    Ok ((s.setSem which sem).setParty p new) := by
  apply h.move hp hlease hlater hnew
  · rw [htokens,hheld]
  · intro w _
    exact htokens w
  · intro f hf
    refine (hqueued f hf).imp_right fun hself => hfuture which f hself ?_
    rwa [Function.update_self]
  · exact hfuture

end

theorem acquire_setParty (s : State V W) (p : ℕ) (party : Party W) (purpose : Purpose)
    (waker : Option W) : acquire (s.setParty p party) p purpose waker = acquire s p purpose waker := by
  simp [acquire,State.setParty,State.setSem]

section

variable (h : Ok s) (hp : s.parties[p]? = some party)
include h hp

theorem resume_acquired_ok
    (hwhich : ∀ purpose, party.stage.asks? = some purpose → which = purpose.which)
    (hlease : Semaphore.Lease (permits s.maxReaders which) sem)
    (hlater : Semaphore.Later (s.sem which) sem)
    (hqueued : ∀ f, Semaphore.Queued sem f → Semaphore.Queued (s.sem which) f ∨
      party.stage.future? = some (which,f))
    (hsettled : ∀ f, party.stage.intent s.maxReaders = .poll f → Semaphore.Settled sem f) {n : ℕ}
    (hgain : (party.stage.intent s.maxReaders).gain (s.sem which) = some n)
    (hheld : sem.held = (s.sem which).held+n)
    (hresume : resume (s.setSem which sem) p party .acquired = some s') : Ok s' := by
  have hparty := h.party p party hp
  obtain ⟨stage,call,waker⟩ := party
  cases stage with
  | waiting purpose f =>
    obtain rfl := hwhich purpose rfl
    have hpermits : purpose.permits s.maxReaders = n :=
      Option.some.inj ((hparty.request purpose f rfl).symm.trans hgain)
    have hgranted := granted_ok h hp hlease hlater rfl (by rw [hpermits]; exact hheld) hqueued
      (fun w g hg => by cases hg; exact ⟨rfl,(hsettled f rfl).not_queued⟩)
    cases purpose with
    | reserve kind =>
      -- the reservation token and the next future appear in one step
      have hacquire := 
        (acquire_setParty _ p ⟨.trying (.access kind),none,none⟩ (.access kind) waker).trans hresume
      apply acquire_ok hgranted (Table.getElem?_set_self' hp _) hacquire _ rfl
      funext w
      cases w <;> rfl
    | _ =>
      cases hresume
      exact hgranted
  | trying purpose =>
    obtain rfl := hwhich purpose rfl
    have hpermits : purpose.permits s.maxReaders = n := Option.some.inj hgain
    have hgranted := granted_ok h hp hlease hlater rfl (by rw [hpermits]; exact hheld) hqueued nofun
    cases hresume
    exact hgranted
  | _ => cases hgain

theorem resume_ok (hlease : Semaphore.Lease (permits s.maxReaders which) sem)
    (hlater : Semaphore.Later (s.sem which) sem) (hheld : sem.held = (s.sem which).held)
    (hqueued : ∀ f, Semaphore.Queued sem f → Semaphore.Queued (s.sem which) f ∨
      party.stage.future? = some (which,f)) {outcome : Semaphore.Outcome}
    (hcall : party.call = some (which,c)) (hdone : sem.calls[c]? = some (.finished outcome))
    (houtcome : outcome ≠ .acquired) (hresume : resume (s.setSem which sem) p party outcome = some s') :
    Ok s' := by
  have hparty := (h.party p party hp).later (later_update hlater)
  have hended : resume (s.setSem which sem) p party outcome =
      some ((s.setSem which sem).setParty p ⟨party.stage.ended,none,none⟩) := by
    cases outcome <;> first | rfl | exact absurd rfl houtcome
  cases hended.symm.trans hresume
  apply resumed_ok h hp hlease hlater hheld hqueued _ (party.stage.ended_tokens s.maxReaders)
  · intro w f hf hq
    obtain ⟨stage,call,waker⟩ := party
    cases stage with
    | waiting purpose g => exact hf
    | cancelling purpose g =>
      cases hf
      obtain ⟨d,hd,hdrop⟩ := hparty.dropping purpose f rfl
      cases hcall.symm.trans hd
      rw [Function.update_self] at hdrop hq
      rcases hdrop with hrunning | hsettled
      · cases hdone.symm.trans hrunning
      · exact absurd hq hsettled.not_queued
    | _ => cases hf
  · obtain ⟨stage,call,waker⟩ := party
    cases stage with
    | waiting purpose g => exact ⟨nofun,nofun,hparty.request,nofun⟩
    | trying purpose => exact .idle purpose.refused_future
    | cancelling purpose g => exact .idle purpose.cancelled_future
    | _ => exact .idle rfl

theorem advance_ok {spurious : Bool} (hcall : party.call = some (which,c))
    (hstep : advance s p party which c spurious = some s') : Ok s' := by
  have hparty := h.party p party hp
  obtain ⟨sem,hsem,hrest⟩ := Option.bind_eq_some_iff.mp hstep
  obtain ⟨hlease,hlater,henqueue,hheld⟩ := (h.lease which).step (hparty.call which c hcall) hsem
  have hqueued (f : ℕ) (hf : Semaphore.Queued sem f) :
      Semaphore.Queued (s.sem which) f ∨ party.stage.future? = some (which,f) := by
    refine (henqueue f hf).imp_right fun hintent => ?_
    obtain ⟨stage,call,waker⟩ := party
    cases stage with
    | waiting purpose g =>
      cases hintent
      rw [hparty.which which c purpose hcall rfl]
      rfl
    | _ => cases hintent
  split at hrest
  · next outcome hdone =>
    rw [hdone] at hheld
    rcases hheld with ⟨hne,hheld⟩ | ⟨heq,hsettled,n,hgain,hheld⟩
    · exact resume_ok h hp hlease hlater hheld hqueued hcall hdone
        (fun heq => hne (by rw [heq])) hrest
    · cases heq
      exact resume_acquired_ok h hp (fun purpose => hparty.which which c purpose hcall) hlease
        hlater hqueued hsettled hgain hheld hrest
  · next hrunning =>
    cases hrest
    have hsame : sem.held = (s.sem which).held := by
      rcases hheld with ⟨-,hsame⟩ | ⟨hdone,-⟩
      · exact hsame
      · exact absurd hdone (hrunning _)
    have hok := resumed_ok h hp hlease hlater hsame hqueued
      (hparty.later (later_update hlater)) (fun _ => rfl) (fun _ _ hf _ => hf)
    rwa [State.setParty,State.setSem,Table.set_self hp] at hok

end

theorem next_ok (h : Ok s) {a : Action V W} (hn : next s a = some s') : Ok s' := by
  cases a with
  | request mode =>
    have hpush : Ok {s with parties := s.parties++[⟨.done,none,none⟩]} :=
      h.push (.idle rfl) fun _ => rfl
    have hlast : (s.parties++[⟨.done,none,none⟩])[s.parties.length]? = some ⟨.done,none,none⟩ := by
      simp
    apply acquire_ok hpush hlast hn _ rfl
    funext w
    cases mode <;> cases w <;> rfl
  | tryLock mode =>
    cases hn
    apply h.push (.idle rfl)
    intro w
    cases mode <;> cases w <;> rfl
  | use p use =>
    simp only [next] at hn
    split at hn
    · next stage hp => exact act_ok h hp hn
    · cases hn
  | step p =>
    simp only [next] at hn
    split at hn
    · next stage waker hp => exact step_ok h hp hn
    · cases hn
  | advance p spurious =>
    simp only [next] at hn
    split at hn
    · next stage which c waker hp => exact advance_ok h hp rfl hn
    · cases hn

theorem reachable_ok (h : (machine V W).Reachable s) : Ok s := by
  apply (machine V W).invariant Ok _ (fun _ _ _ hs hn => next_ok hs hn) h
  rintro s₀ ⟨value,maxReaders,h₁,h₂,rfl⟩
  exact withMaxReaders_ok h₁ h₂

end Steps
end UpgradableRwLock
end Asyncband
