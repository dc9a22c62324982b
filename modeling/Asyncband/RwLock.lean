import Asyncband.SemaphoreClient

/-! The readers-writer lock over its semaphore.
A party is one request together with the guard it may turn into. Read access owns one
permit and write access owns all of them; projecting or downgrading a guard moves the
token. The model follows the tokens through every future, guard and release. -/
namespace Asyncband
namespace RwLock

inductive Mode
  | read | write
  deriving DecidableEq

/-- A guard with its access token. `owned` guards keep an `Arc` to the lock. -/
structure Guard where
  mode : Mode
  permits : ℕ
  owned : Bool
  mapped : Bool
  deriving DecidableEq

inductive Stage
  | waiting (mode : Mode) (owned : Bool) (future : ℕ)
  | trying (mode : Mode) (owned : Bool)
  | guard (g : Guard)
  /-- Inside `downgrade`: the read token exists and the other permits are released. -/
  | downgrading (g : Guard)
  | dropping
  | cancelling
  | done
  deriving DecidableEq

structure Party where
  stage : Stage
  call : Option ℕ

structure State (W : Type) where
  maxReaders : ℕ
  sem : Semaphore.State W
  parties : List Party

def withMaxReaders (W : Type) (maxReaders : ℕ) : State W :=
  ⟨maxReaders,Semaphore.new W maxReaders,[]⟩

/-- How the closure of `map` or `filter_map` ends. -/
inductive Projection
  | selected | refused | panicked
  deriving DecidableEq

/-- What the owner of a future or a guard does with it. -/
inductive Use (W : Type)
  | poll (waker : W)
  | cancel
  | drop
  | downgrade
  | map (projection : Projection)

inductive Action (W : Type)
  | request (mode : Mode) (owned : Bool)
  | tryLock (mode : Mode) (owned : Bool)
  | use (p : ℕ) (use : Use W)
  | advance (p : ℕ) (spurious : Bool)

variable {W : Type}
variable {maxReaders p : ℕ} {sem : Semaphore.State W} {party : Party} {outcome : Semaphore.Outcome}
    {c : Option ℕ} {s s' : State W}

def Mode.permits (maxReaders : ℕ) : Mode → ℕ
  | .read => 1
  | .write => maxReaders

def newGuard (maxReaders : ℕ) (mode : Mode) (owned : Bool) : Guard :=
  ⟨mode,mode.permits maxReaders,owned,false⟩

def start [Wake W] (s : State W) (p : ℕ) (stage : Stage) (op : Semaphore.Op W) :
    Option (State W) :=
  (Semaphore.next s.sem (.call op)).map fun sem =>
    {s with sem := sem,parties := s.parties.set p ⟨stage,some s.sem.calls.length⟩}

/-- Dropping the access token of a guard. -/
def dropGuard [Wake W] (s : State W) (p : ℕ) (g : Guard) : Option (State W) :=
  start s p .dropping (.release g.permits)

/-- The code after a semaphore call that ended with `outcome`. -/
def resume (maxReaders : ℕ) : Stage → Semaphore.Outcome → Stage
  | .waiting mode owned _, .acquired => .guard (newGuard maxReaders mode owned)
  | .waiting mode owned f, _ => .waiting mode owned f
  | .trying mode owned, .acquired => .guard (newGuard maxReaders mode owned)
  | .trying _ _, _ => .done
  | .downgrading g, _ | .guard g, _ => .guard g
  | _, _ => .done

def advance [Wake W] (s : State W) (p : ℕ) (stage : Stage) (c : ℕ) (spurious : Bool) :
    Option (State W) :=
  (Semaphore.advance s.sem c spurious).map fun (sem : Semaphore.State W) =>
    match sem.calls[c]? with
    | some (.finished outcome) =>
      {s with
        sem := sem
        parties := s.parties.set p ⟨resume s.maxReaders stage outcome,none⟩}
    | _ => {s with sem := sem}

/-- Party `p` is not in a semaphore call, and its owner uses it. -/
def act [Wake W] (s : State W) (p : ℕ) : Stage → Use W → Option (State W)
  | .waiting mode owned f, .poll waker => start s p (.waiting mode owned f) (.poll f waker)
  | .waiting _ _ f, .cancel => start s p .cancelling (.drop f)
  | .guard g, .drop => dropGuard s p g
  | .guard g, .downgrade =>
    -- mapped guards have no `downgrade`
    if g.mode = .write ∧ g.mapped = false then
      start s p (.downgrading {g with mode := .read,permits := 1}) (.release (g.permits-1))
    else none
  | .guard g, .map .selected =>
    some {s with parties := s.parties.set p ⟨.guard {g with mapped := true},none⟩}
  | .guard _, .map .refused => some s
  | .guard g, .map .panicked => dropGuard s p g
  | _, _ => none

def next [Wake W] (s : State W) : Action W → Option (State W)
  | .request mode owned =>
    (Semaphore.next s.sem (.acquire (mode.permits s.maxReaders))).map fun sem =>
      {s with
        sem := sem
        parties := s.parties++[⟨.waiting mode owned s.sem.acquires.length,none⟩]}
  | .tryLock mode owned =>
    (Semaphore.next s.sem (.call (.tryAcquire (mode.permits s.maxReaders)))).map fun sem =>
      {s with sem := sem,parties := s.parties++[⟨.trying mode owned,some s.sem.calls.length⟩]}
  | .use p use =>
    match s.parties[p]? with
    | some ⟨stage,none⟩ => act s p stage use
    | _ => none
  | .advance p spurious =>
    match s.parties[p]? with
    | some ⟨stage,some c⟩ => advance s p stage c spurious
    | _ => none

/-- All interleavings of the users of one lock. `max_readers` is a `NonZeroUsize`. -/
def machine (W : Type) [Wake W] : Transition.Machine (State W) (Action W) where
  init s := ∃ maxReaders, 1 ≤ maxReaders ∧ maxReaders ≤ usizeMax ∧ s = withMaxReaders W maxReaders
  next := next

/-- The guard that a stage has, returned to its owner or about to be. -/
def Stage.guard? : Stage → Option Guard
  | .guard g | .downgrading g => some g
  | _ => none

def Party.permits (party : Party) : ℕ := party.stage.guard?.elim 0 Guard.permits

def State.guardOf (s : State W) (p : ℕ) : Option Guard := (s.parties[p]?).bind (·.stage.guard?)

def State.readers (s : State W) : ℕ :=
  Table.total (fun party => if party.stage.guard?.any (·.mode = .read) then 1 else 0) s.parties

def Stage.intent (maxReaders : ℕ) : Stage → Semaphore.Intent
  | .waiting _ _ f => .poll f
  | .trying mode _ => .tryAcquire (mode.permits maxReaders)
  | _ => .other

structure PartyOk (maxReaders : ℕ) (sem : Semaphore.State W) (party : Party) : Prop where
  call : ∀ c, party.call = some c → Semaphore.Serving sem c (party.stage.intent maxReaders)
  request : ∀ mode owned f, party.stage = .waiting mode owned f →
    sem.requested f = some (mode.permits maxReaders)
  guard : ∀ g, party.stage.guard? = some g → g.permits = g.mode.permits maxReaders

/-- The permits that the guards own are the permits that users of the semaphore hold. -/
structure Ok [Wake W] (s : State W) : Prop where
  readers : 1 ≤ s.maxReaders
  lease : Semaphore.Lease s.maxReaders s.sem
  held : Table.total Party.permits s.parties = s.sem.held
  party : ∀ (p : ℕ) party, s.parties[p]? = some party → PartyOk s.maxReaders s.sem party

theorem PartyOk.later {sem' : Semaphore.State W} (h : PartyOk maxReaders sem party)
    (hlater : Semaphore.Later sem sem') : PartyOk maxReaders sem' party where
  call c hc := hlater.serving c _ (h.call c hc)
  request mode owned f hf := hlater.requested f _ (h.request mode owned f hf)
  guard := h.guard

theorem resume_guard {stage : Stage} (h : outcome ≠ .acquired) :
    (resume maxReaders stage outcome).guard? = stage.guard? := by
  cases stage <;> cases outcome <;> first | rfl | exact absurd rfl h

theorem resume_ok {stage : Stage} (hok : PartyOk maxReaders sem ⟨stage,c⟩) (h : outcome ≠ .acquired) :
    PartyOk maxReaders sem ⟨resume maxReaders stage outcome,none⟩ where
  call := nofun
  request := by
    intro mode owned f hf
    have hstage : stage = .waiting mode owned f := by
      cases stage <;> cases outcome <;> first | exact hf | cases hf
    exact hok.request mode owned f hstage
  guard := by
    rw [resume_guard h]
    exact hok.guard

theorem resume_acquired {n : ℕ} {stage : Stage} (hok : PartyOk maxReaders sem ⟨stage,c⟩)
    (hgain : (stage.intent maxReaders).gain sem = some n) :
    ∃ mode owned, resume maxReaders stage .acquired = .guard (newGuard maxReaders mode owned) ∧
      stage.guard? = none ∧ n = mode.permits maxReaders := by
  cases stage with
  | waiting mode owned f =>
    refine ⟨mode,owned,rfl,rfl,?_⟩
    have hrequest := hok.request mode owned f rfl
    exact Option.some.inj (hgain.symm.trans hrequest)
  | trying mode owned => exact ⟨mode,owned,rfl,rfl,(Option.some.inj hgain).symm⟩
  | _ => cases hgain

theorem State.guardOf_eq_some {g : Guard} (h : s.guardOf p = some g) :
    ∃ party, s.parties[p]? = some party ∧ party.stage.guard? = some g :=
  Option.bind_eq_some_iff.mp h

def Stage.downgraded : Stage → Bool
  | .guard g | .downgrading g => g.mode = .read
  | .dropping | .done => true
  | _ => false

def Downgraded (s : State W) (p : ℕ) : Prop :=
  ∃ party, s.parties[p]? = some party ∧ party.stage.downgraded = true

theorem resume_downgraded {stage : Stage} (h : stage.downgraded = true) :
    (resume maxReaders stage outcome).downgraded = true := by
  cases stage <;> first | exact h | rfl | cases h

theorem Downgraded.stage (h : Downgraded s p) (hp : s.parties[p]? = some party) :
    party.stage.downgraded = true := by
  obtain ⟨party',hp',hstage⟩ := h
  cases hp.symm.trans hp'
  exact hstage

theorem Downgraded.set {q : ℕ} (h : Downgraded s p) (hparties : s'.parties = s.parties.set q party)
    (hnew : q = p → party.stage.downgraded = true) : Downgraded s' p := by
  obtain ⟨old,hp,hstage⟩ := h
  by_cases hq : q = p
  · subst hq
    exact ⟨party,by rw [hparties]; exact Table.getElem?_set_self' hp _,hnew rfl⟩
  · exact ⟨old,by rw [hparties,List.getElem?_set_ne hq]; exact hp,hstage⟩

theorem Downgraded.push (h : Downgraded s p) (hparties : s'.parties = s.parties++[party]) :
    Downgraded s' p := by
  obtain ⟨old,hp,hstage⟩ := h
  exact ⟨old,by rw [hparties]; exact Table.getElem?_push_old hp _,hstage⟩

section Steps

variable [Wake W] {s s' : State W} {sem : Semaphore.State W} {p : ℕ} {party new : Party}
variable {op : Semaphore.Op W} {g : Guard} {use : Use W} {a : Action W} {q : ℕ}

theorem withMaxReaders_ok {maxReaders : ℕ} (h₁ : 1 ≤ maxReaders) (h₂ : maxReaders ≤ usizeMax) :
    Ok (withMaxReaders W maxReaders) where
  readers := h₁
  lease := Semaphore.new_lease h₂
  held := rfl
  party := by simp [withMaxReaders]

theorem Ok.set (h : Ok s) (hp : s.parties[p]? = some party)
    (hlease : Semaphore.Lease s.maxReaders sem) (hlater : Semaphore.Later s.sem sem)
    (hnew : PartyOk s.maxReaders sem new)
    (hheld : sem.held+party.permits = s.sem.held+new.permits) :
    Ok {s with sem := sem,parties := s.parties.set p new} where
  readers := h.readers
  lease := hlease
  held := by
    have hset := Table.total_set Party.permits hp new
    have hold := h.held
    show Table.total Party.permits (s.parties.set p new) = sem.held
    omega
  party := by
    intro q other hq
    rcases Table.getElem?_set_cases hq with ⟨-,rfl⟩ | ⟨-,hq⟩
    · exact hnew
    · exact (h.party q other hq).later hlater

theorem Ok.push (h : Ok s) (hlease : Semaphore.Lease s.maxReaders sem)
    (hlater : Semaphore.Later s.sem sem) (hnew : PartyOk s.maxReaders sem new)
    (hheld : sem.held = s.sem.held+new.permits) :
    Ok {s with sem := sem,parties := s.parties++[new]} where
  readers := h.readers
  lease := hlease
  held := by
    have hold := h.held
    show Table.total Party.permits (s.parties++[new]) = sem.held
    simp only [Table.total_append,Table.total_cons,Table.total_nil]
    omega
  party := by
    intro q other hq
    rcases Table.getElem?_push hq with hq | ⟨-,rfl⟩
    · exact (h.party q other hq).later hlater
    · exact hnew

/-- A party makes a call for its new stage and passes the rest of its permits to it. -/
theorem start_ok (h : Ok s) (hp : s.parties[p]? = some party) {stage : Stage}
    (hstart : start s p stage op = some s') (hintent : op.intent = stage.intent s.maxReaders)
    (hop : op.intent.leasing = true)
    (hpermits : party.permits = op.released+(Party.mk stage none).permits)
    (hnew : PartyOk s.maxReaders s.sem ⟨stage,none⟩) : Ok s' := by
  obtain ⟨sem,hsem,rfl⟩ := Option.map_eq_some_iff.mp hstart
  have hle := Table.le_total Party.permits hp
  rw [h.held] at hle
  obtain ⟨hlease,hheld,hlater,hcall,-⟩ := h.lease.make hsem hop (by omega)
  refine h.set hp hlease hlater ⟨?_,(hnew.later hlater).request,hnew.guard⟩ ?_
  · rintro c ⟨rfl⟩
    exact ⟨_,hcall,Or.inl hintent⟩
  · have hsame : (Party.mk stage (some s.sem.calls.length)).permits =
        (Party.mk stage none).permits := rfl
    omega

theorem dropGuard_ok (h : Ok s) (hp : s.parties[p]? = some ⟨.guard g,none⟩)
    (hdrop : dropGuard s p g = some s') : Ok s' := by
  apply start_ok h hp hdrop rfl rfl rfl
  exact ⟨nofun,nofun,nofun⟩

theorem act_ok (h : Ok s) {stage : Stage} (hp : s.parties[p]? = some ⟨stage,none⟩)
    (hact : act s p stage use = some s') : Ok s' := by
  have hparty := h.party p _ hp
  cases stage with
  | waiting mode owned f =>
    cases use with
    | poll waker => exact start_ok h hp hact rfl rfl rfl hparty
    | cancel =>
      apply start_ok h hp hact rfl rfl rfl
      exact ⟨nofun,nofun,nofun⟩
    | _ => cases hact
  | guard g =>
    have hpermits := hparty.guard g rfl
    cases use with
    | drop => exact dropGuard_ok h hp hact
    | downgrade =>
      simp only [act] at hact
      split at hact
      · next hwrite =>
        rw [hwrite.1] at hpermits
        apply start_ok h hp hact rfl rfl
        · have hreaders := h.readers
          show g.permits = g.permits-1+1
          simp only [Mode.permits] at hpermits
          omega
        · exact ⟨nofun,nofun,fun g' hg' => by cases hg'; rfl⟩
      · cases hact
    | map projection =>
      cases projection with
      | selected =>
        cases hact
        apply h.set hp h.lease (.refl s.sem)
        · exact ⟨nofun,nofun,fun g' hg' => by cases hg'; exact hpermits⟩
        · rfl
      | refused =>
        cases hact
        exact h
      | panicked => exact dropGuard_ok h hp hact
    | _ => cases hact
  | _ => cases use <;> cases hact

theorem advance_ok (h : Ok s) {stage : Stage} {c : ℕ} {spurious : Bool}
    (hp : s.parties[p]? = some ⟨stage,some c⟩) (hstep : advance s p stage c spurious = some s') :
    Ok s' := by
  have hparty := h.party p _ hp
  obtain ⟨sem,hsem,rfl⟩ := Option.map_eq_some_iff.mp hstep
  obtain ⟨hlease,hlater,-,hheld⟩ := h.lease.step (hparty.call c rfl) hsem
  split
  · next outcome hdone =>
    rw [hdone] at hheld
    rcases hheld with ⟨hne,hheld⟩ | ⟨heq,-,n,hgain,hheld⟩
    · have houtcome : outcome ≠ .acquired := fun heq => hne (by rw [heq])
      apply h.set hp hlease hlater ((resume_ok hparty houtcome).later hlater)
      simp only [Party.permits,resume_guard houtcome,hheld]
    · cases heq
      obtain ⟨mode,owned,hresume,hnone,rfl⟩ := resume_acquired hparty hgain
      rw [hresume]
      apply h.set hp hlease hlater
      · exact ⟨nofun,nofun,fun g hg => by cases hg; rfl⟩
      · simp only [Party.permits,hnone,hheld]
        rfl
  · next hrunning =>
    have hsame : sem.held = s.sem.held := by
      rcases hheld with ⟨-,hsame⟩ | ⟨hdone,-⟩
      · exact hsame
      · exact absurd hdone (hrunning _)
    exact ⟨h.readers,hlease,h.held.trans hsame.symm,
      fun q other hq => (h.party q other hq).later hlater⟩

theorem next_ok (h : Ok s) (hn : next s a = some s') : Ok s' := by
  cases a with
  | request mode owned =>
    obtain ⟨sem,hsem,rfl⟩ := Option.map_eq_some_iff.mp hn
    obtain ⟨hlease,hheld,hlater,hrequested,-⟩ := h.lease.create hsem
    apply h.push hlease hlater
    · exact ⟨nofun,fun _ _ _ hf => by cases hf; exact hrequested,nofun⟩
    · exact hheld
  | tryLock mode owned =>
    obtain ⟨sem,hsem,rfl⟩ := Option.map_eq_some_iff.mp hn
    obtain ⟨hlease,hheld,hlater,hcall,-⟩ := h.lease.make hsem rfl (Nat.zero_le _)
    apply h.push hlease hlater
    · exact ⟨fun c hc => by cases hc; exact ⟨_,hcall,Or.inl rfl⟩,nofun,nofun⟩
    · exact hheld.symm
  | use p use =>
    simp only [next] at hn
    split at hn
    · next stage hp => exact act_ok h hp hn
    · cases hn
  | advance p spurious =>
    simp only [next] at hn
    split at hn
    · next stage c hp => exact advance_ok h hp hn
    · cases hn

theorem reachable_ok (h : (machine W).Reachable s) : Ok s := by
  apply (machine W).invariant Ok _ (fun _ _ _ hs hn => next_ok hs hn) h
  rintro s₀ ⟨maxReaders,h₁,h₂,rfl⟩
  exact withMaxReaders_ok h₁ h₂

theorem Ok.write_unique (h : Ok s) {g' : Guard} (hg : s.guardOf p = some g)
    (hg' : s.guardOf q = some g') (hwrite : g.mode = .write) : p = q := by
  by_contra hne
  obtain ⟨party,hp,hguard⟩ := State.guardOf_eq_some hg
  obtain ⟨party',hq,hguard'⟩ := State.guardOf_eq_some hg'
  have hle := Table.add_le_total Party.permits hne hp hq
  have htotal := h.lease.total
  have hheld := h.held
  have hreaders := h.readers
  have h₁ : party.permits = s.maxReaders := by
    simp [Party.permits,hguard,(h.party p _ hp).guard g hguard,hwrite,Mode.permits]
  have h₂ : 1 ≤ party'.permits := by
    simp only [Party.permits,hguard',Option.elim_some,(h.party q _ hq).guard g' hguard']
    cases g'.mode
    · exact Nat.le_refl 1
    · exact hreaders
  omega

theorem Ok.readers_le (h : Ok s) : s.readers ≤ s.maxReaders := by
  have hle : s.readers ≤ Table.total Party.permits s.parties := by
    apply Table.total_le
    intro party hmem
    obtain ⟨p,hp⟩ := List.mem_iff_getElem?.mp hmem
    have hguard := (h.party p party hp).guard
    unfold Party.permits
    cases hg : party.stage.guard? with
    | none => simp
    | some g =>
      cases hmode : g.mode with
      | read => simp [hmode,hguard g hg,Mode.permits]
      | write => simp [hmode]
  have htotal := h.lease.total
  have hheld := h.held
  omega

theorem start_parties {stage : Stage} (h : start s p stage op = some s') :
    s'.parties = s.parties.set p ⟨stage,some s.sem.calls.length⟩ := by
  obtain ⟨sem,-,rfl⟩ := Option.map_eq_some_iff.mp h
  rfl

theorem act_downgraded {stage : Stage} (h : Downgraded s p) (hq : s.parties[q]? = some ⟨stage,none⟩)
    (hact : act s q stage use = some s') : Downgraded s' p := by
  have hold (heq : q = p) : stage.downgraded = true := by
    subst heq
    exact h.stage hq
  cases stage with
  | waiting mode owned f =>
    cases use with
    | poll waker => exact h.set (start_parties hact) hold
    | cancel => exact h.set (start_parties hact) fun heq => absurd (hold heq) (by simp [Stage.downgraded])
    | _ => cases hact
  | guard g =>
    cases use with
    | drop => exact h.set (start_parties hact) fun _ => rfl
    | downgrade =>
      simp only [act] at hact
      split at hact
      · exact h.set (start_parties hact) fun _ => rfl
      · cases hact
    | map projection =>
      cases projection with
      | selected =>
        cases hact
        exact h.set rfl hold
      | refused =>
        cases hact
        exact h
      | panicked => exact h.set (start_parties hact) fun _ => rfl
    | _ => cases hact
  | _ => cases use <;> cases hact

theorem next_downgraded (h : Downgraded s p) (hn : next s a = some s') : Downgraded s' p := by
  cases a with
  | request | tryLock =>
    obtain ⟨sem,-,rfl⟩ := Option.map_eq_some_iff.mp hn
    exact h.push rfl
  | use q use =>
    simp only [next] at hn
    split at hn
    · next stage hq => exact act_downgraded h hq hn
    · cases hn
  | advance q spurious =>
    simp only [next] at hn
    split at hn
    · next stage c hq =>
      obtain ⟨sem,-,rfl⟩ := Option.map_eq_some_iff.mp hn
      split
      · apply h.set rfl
        intro heq
        subst heq
        exact resume_downgraded (h.stage hq)
      · exact h
    · cases hn

theorem downgrade_downgraded (hn : next s (.use p .downgrade) = some s') : Downgraded s' p := by
  simp only [next] at hn
  split at hn
  · next stage hp =>
    cases stage with
    | guard g =>
      simp only [act] at hn
      split at hn
      · exact ⟨_,by rw [start_parties hn]; exact Table.getElem?_set_self' hp _,rfl⟩
      · cases hn
    | _ => cases hn
  · cases hn

structure Exclusive (s : State W) : Prop where
  writer : ∀ p q g g', s.guardOf p = some g → s.guardOf q = some g' → g.mode = .write → p = q
  readers : s.readers ≤ s.maxReaders
  /-- A downgrade leaves no gap for writers. -/
  downgrade : ∀ p s₁ run s₂ g, next s (.use p .downgrade) = some s₁ →
    (machine W).exec s₁ run = some s₂ → s₂.guardOf p = some g →
    ∀ q g', s₂.guardOf q = some g' → g'.mode = .read
  conserved : s.sem.available+s.sem.assigned+Table.total Party.permits s.parties+
    (s.sem.remaining+s.sem.argument) = s.maxReaders
  sound : ∀ call ∈ s.sem.calls, ∀ message remaining, call ≠ .panicked message remaining

theorem exclusion (h : (machine W).Reachable s) : Exclusive s := by
  have hok := reachable_ok h
  refine ⟨fun p q g g' => hok.write_unique,hok.readers_le,?_,?_,hok.lease.sound⟩
  · intro p s₁ run s₂ g hdowngrade hrun hg q g' hg'
    have hok₂ := (machine W).exec_invariant (fun _ => True) Ok (fun _ _ _ _ hs hn => next_ok hs hn)
      (fun _ _ => trivial) (next_ok hok hdowngrade) hrun
    have hafter := (machine W).exec_invariant (fun _ => True) (Downgraded · p)
      (fun _ _ _ _ hs hn => next_downgraded hs hn) (fun _ _ => trivial)
      (downgrade_downgraded hdowngrade) hrun
    have hread : g.mode = .read := by
      obtain ⟨party,hp,hguard⟩ := State.guardOf_eq_some hg
      have hstage := hafter.stage hp
      cases hs : party.stage <;> simp_all [Stage.guard?,Stage.downgraded]
    cases hmode : g'.mode with
    | read => rfl
    | write =>
      have hsame := hok₂.write_unique hg' hg hmode
      subst hsame
      cases hg.symm.trans hg'
      rw [hread] at hmode
      cases hmode
  · have htotal := hok.lease.total
    have hheld := hok.held
    omega

end Steps

def lockRun : List (Action ℕ) :=
  [.tryLock .write false,.advance 0 false,.advance 0 false,.request .read true,
    .use 1 (.poll 7),.advance 1 false,.advance 1 false,.advance 1 false]

/-- The downgrade releases a permit, which goes to the waiting reader. -/
def downgradeRun : List (Action ℕ) :=
  [.advance 0 false,.advance 0 false,.advance 0 false,.advance 0 false,
    .use 1 (.poll 7),.advance 1 false]

theorem exclusion_downgradeRun :
    ∃ s s₁ s₂ g, (machine ℕ).exec (withMaxReaders ℕ 2) lockRun = some s ∧
      s.guardOf 0 = some (newGuard 2 .write false) ∧ s.sem.assigned = 0 ∧
      next s (.use 0 .downgrade) = some s₁ ∧ (machine ℕ).exec s₁ downgradeRun = some s₂ ∧
      s₂.guardOf 0 = some ⟨.read,1,false,false⟩ ∧ s₂.guardOf 1 = some g ∧ g.mode = .read := by
  refine ⟨_,_,_,_,rfl,rfl,rfl,rfl,rfl,rfl,rfl,?_⟩
  have hreach : (machine ℕ).Reachable
      (((machine ℕ).exec (withMaxReaders ℕ 2) lockRun).getD (withMaxReaders ℕ 2)) :=
    ⟨_,lockRun,⟨2,by decide,by decide,rfl⟩,fun _ _ => trivial,rfl⟩
  exact (exclusion hreach).downgrade 0 _ downgradeRun _ _ rfl rfl rfl 1 _ rfl

end RwLock
end Asyncband
