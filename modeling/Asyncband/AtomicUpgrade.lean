import Asyncband.UpgradableTokens

/-! Upgrades are atomic.
Whoever asks for more than one data permit holds the reservation first, so the data
queue never holds two such requests. An upgradable guard keeps its data permit until
the write guard exists, so the value cannot change under it. -/
namespace Asyncband
namespace UpgradableRwLock

variable {V W : Type} {s s' : State V W} {new : Party W} {stage : Stage}

/-- The guard that a stage has, returned to its owner or about to be. -/
def Stage.mode? : Stage → Option Mode
  | .guard mode => some mode
  | .releasing _ _ result => result
  | _ => none

def Stage.upgradable : Stage → Bool
  | .guard .upgradable | .waiting .upgrade _ | .trying .upgrade => true
  | _ => false

/-- From the upgradable guard up to the write guard that its upgrade returns. -/
def Stage.promoting : Stage → Bool
  | .releasing _ _ (some .write) => true
  | stage => stage.upgradable

def Stage.past : Stage → Bool
  | .guard .read | .guard .write | .releasing _ _ none | .releasing _ _ (some .read)
  | .cancelling .upgrade _ | .done => true
  | _ => false

/-- No way leads back to an upgradable guard. -/
def Onward (stage stage' : Stage) : Prop :=
  (stage.promoting = true → stage'.promoting = true ∨ stage'.past = true) ∧
    (stage.past = true → stage'.past = true)

def Follows (s s' : State V W) : Prop :=
  ∀ (p : ℕ) party, s.parties[p]? = some party →
    ∃ party', s'.parties[p]? = some party' ∧ Onward party.stage party'.stage

theorem Onward.refl (stage : Stage) : Onward stage stage := ⟨Or.inl,id⟩

theorem Purpose.granted_onward (purpose : Purpose) (f : ℕ) :
    Onward (.waiting purpose f) purpose.granted ∧ Onward (.trying purpose) purpose.granted := by
  rcases purpose with _ | kind | kind | _ <;> try rcases kind with _ | _
  all_goals
    simp [Onward,Stage.promoting,Stage.upgradable,Stage.past,granted]

theorem Stage.ended_onward (stage : Stage) : Onward stage stage.ended := by
  cases stage with
  | trying purpose =>
    cases purpose <;>
      simp [Onward,promoting,upgradable,past,ended,Purpose.refused]
  | cancelling purpose f =>
    cases purpose <;>
      simp [Onward,promoting,upgradable,past,ended,Purpose.cancelled]
  | _ => exact Onward.refl _

theorem onward_releasing (access access' : Option ℕ) (reservation reservation' : Bool)
    (result : Option Mode) :
    Onward (.releasing access reservation result) (.releasing access' reservation' result) := by
  rcases result with _ | (_ | _ | _) <;>
    simp [Onward,Stage.promoting,Stage.upgradable,Stage.past]

theorem onward_returned (access : Option ℕ) (reservation : Bool) (mode : Mode) :
    Onward (.releasing access reservation (some mode)) (.guard mode) := by
  cases mode <;> simp [Onward,Stage.promoting,Stage.upgradable,Stage.past]

theorem onward_cancelling (purpose : Purpose) (f : ℕ) :
    Onward (.waiting purpose f) (.cancelling purpose f) := by
  cases purpose <;> simp [Onward,Stage.promoting,Stage.upgradable,Stage.past]

theorem Follows.set {q : ℕ} {old : Party W} (hq : s.parties[q]? = some old)
    (hparties : s'.parties = s.parties.set q new) (hnew : Onward old.stage new.stage) :
    Follows s s' := by
  intro p party hp
  by_cases hqp : q = p
  · subst hqp
    cases hp.symm.trans hq
    exact ⟨new,by rw [hparties]; exact Table.getElem?_set_self' hq new,hnew⟩
  · exact ⟨party,by rw [hparties,List.getElem?_set_ne hqp]; exact hp,.refl _⟩

theorem Follows.push (hparties : s'.parties = s.parties++[new]) : Follows s s' := by
  intro p party hp
  exact ⟨party,by rw [hparties]; exact Table.getElem?_push_old hp new,.refl _⟩

theorem Stage.promoting_tokens {maxReaders : ℕ} (h : 1 ≤ maxReaders) (stage : Stage)
    (hs : stage.promoting = true) : 0 < stage.tokens maxReaders .data := by
  cases stage with
  | releasing access reservation result =>
    rcases result with _ | (_ | _ | _) <;>
      simp_all [promoting,upgradable,tokens,Mode.tokens]
    omega
  | guard mode => cases mode <;> simp_all [promoting,upgradable,tokens,Mode.tokens]
  | waiting purpose
  | trying purpose => cases purpose <;> simp_all [promoting,upgradable,tokens,Purpose.tokens]
  | _ => cases hs

theorem Stage.promoting_of_upgradable (h : stage.upgradable = true) : stage.promoting = true := by
  cases stage with
  | releasing access reservation result => cases h
  | _ => exact h

theorem Stage.not_past_of_promoting (h : stage.promoting = true) : stage.past = false := by
  cases stage with
  | releasing access reservation result => rcases result with _ | (_ | _ | _) <;> first | rfl | cases h
  | guard mode => cases mode <;> first | rfl | cases h
  | _ => first | rfl | cases h

def Requests (s : State V W) (id : WaiterId) (p : ℕ) (purpose : Purpose) : Prop :=
  ∃ party f node, s.parties[p]? = some party ∧
    (party.stage = .waiting purpose f ∨ party.stage = .cancelling purpose f) ∧
    purpose.which = .data ∧ (s.sem .data).waiters.get? id = some node ∧ node.owner = some f

section Steps

variable [Wake W] {s s' : State V W} {p : ℕ} {party new : Party W} {which : Which}
  {sem : Semaphore.State W} {q : ℕ} {party' : Party W} {waker : Option W} {a : Action V W}

theorem Ok.total (h : Ok s) (which : Which) :
    (s.sem which).available+(s.sem which).assigned+
      Table.total (·.stage.tokens s.maxReaders which) s.parties+
      ((s.sem which).remaining+(s.sem which).argument) = permits s.maxReaders which := by
  have htotal := (h.lease which).total
  have hheld := h.held which
  omega

theorem Ok.tokens_le (h : Ok s) (hne : p ≠ q) (hp : s.parties[p]? = some party)
    (hq : s.parties[q]? = some party') (which : Which) :
    party.stage.tokens s.maxReaders which+party'.stage.tokens s.maxReaders which ≤
      permits s.maxReaders which := by
  have hle := Table.add_le_total (·.stage.tokens s.maxReaders which) hne hp hq
  have htotal := h.total which
  omega

theorem Ok.reservation_unique (h : Ok s) (hp : s.parties[p]? = some party)
    (hq : s.parties[q]? = some party') (hpos : 0 < party.stage.tokens s.maxReaders .reservation)
    (hpos' : 0 < party'.stage.tokens s.maxReaders .reservation) : p = q := by
  by_contra hne
  have hle := h.tokens_le hne hp hq .reservation
  simp only [permits] at hle
  omega

theorem Ok.requests (h : Ok s) {id : WaiterId} (hid : id ∈ (s.sem .data).waiters.order) :
    ∃ p purpose, Requests s id p purpose := by
  obtain ⟨node,hnode⟩ := WaitList.get?_of_mem_order hid
  have hqueue := (h.lease .data).inv.queue
  obtain ⟨f,hf⟩ := Option.isSome_iff_exists.mp ((h.lease .data).owned id node hnode)
  obtain ⟨a,ha,hphase,-⟩ := hqueue.owner_phase hnode hf
  obtain ⟨p,party,hp,hfuture⟩ := h.queued .data f ⟨a,id,ha,hphase⟩
  cases hs : party.stage with
  | waiting purpose g =>
    simp only [hs,Stage.future?,Option.some.injEq,Prod.mk.injEq] at hfuture
    obtain ⟨hwhich,rfl⟩ := hfuture
    exact ⟨p,purpose,party,g,node,hp,Or.inl hs,hwhich,hnode,hf⟩
  | cancelling purpose g =>
    simp only [hs,Stage.future?,Option.some.injEq,Prod.mk.injEq] at hfuture
    obtain ⟨hwhich,rfl⟩ := hfuture
    exact ⟨p,purpose,party,g,node,hp,Or.inr hs,hwhich,hnode,hf⟩
  | _ => simp [hs,Stage.future?] at hfuture

/-- Of two requests in the data queue one is an ordinary read: every other purpose
holds the reservation. -/
theorem Ok.requests_read (h : Ok s) {id id' : WaiterId} {purpose purpose' : Purpose} (hne : id ≠ id')
    (hp : Requests s id p purpose) (hq : Requests s id' q purpose') :
    purpose = .read ∨ purpose' = .read := by
  obtain ⟨party,f,node,hp,hstage,hdata,hnode,howner⟩ := hp
  obtain ⟨party',g,node',hq,hstage',hdata',hnode',howner'⟩ := hq
  have hqueue := (h.lease .data).inv.queue
  obtain ⟨a,ha,hphase,-⟩ := hqueue.owner_phase hnode howner
  obtain ⟨b,hb,hphase',-⟩ := hqueue.owner_phase hnode' howner'
  have hpq : p ≠ q := by
    rintro rfl
    cases hp.symm.trans hq
    have hfg : f = g := by
      rcases hstage with hs | hs <;> rcases hstage' with hs' | hs' <;>
        · rw [hs] at hs'
          cases hs'
          try rfl
    subst hfg
    cases ha.symm.trans hb
    rw [hphase] at hphase'
    exact hne (Semaphore.Phase.queued.inj hphase')
  have hreserved {party : Party W} {purpose : Purpose} {f : ℕ} (hdata : purpose.which = .data)
      (hread : purpose ≠ .read)
      (hstage : party.stage = .waiting purpose f ∨ party.stage = .cancelling purpose f) :
      0 < party.stage.tokens s.maxReaders .reservation := by
    rcases hstage with hs | hs <;> cases purpose <;>
      simp_all [Stage.tokens,Purpose.tokens,Purpose.which]
  by_contra hboth
  push Not at hboth
  exact hpq (h.reservation_unique hp hq (hreserved hdata hboth.1 hstage)
    (hreserved hdata' hboth.2 hstage'))

/-- An upgradable guard excludes write guards until its upgrade is complete. -/
theorem Ok.no_write (h : Ok s) (hp : s.parties[p]? = some party) (hq : s.parties[q]? = some party')
    (hpos : 0 < party.stage.tokens s.maxReaders .data) (hwrite : party'.stage.mode? = some .write) :
    p = q := by
  by_contra hne
  have hle := h.tokens_le hne hp hq .data
  have hall : s.maxReaders ≤ party'.stage.tokens s.maxReaders .data := by
    cases hs : party'.stage with
    | guard mode =>
      simp only [hs,Stage.mode?,Option.some.injEq] at hwrite
      subst hwrite
      exact Nat.le_refl _
    | releasing access reservation result =>
      simp only [hs,Stage.mode?] at hwrite
      subst hwrite
      exact Nat.le_add_left _ _
    | _ => simp [hs,Stage.mode?] at hwrite
  simp only [permits] at hle
  omega

theorem start_parties {op : Semaphore.Op W} (h : start s p stage waker which op = some s') :
    s'.value = s.value ∧ s'.parties =
      s.parties.set p ⟨stage,some (which,(s.sem which).calls.length),waker⟩ := by
  obtain ⟨sem,-,rfl⟩ := Option.map_eq_some_iff.mp h
  exact ⟨rfl,rfl⟩

theorem acquire_parties {purpose : Purpose} (h : acquire s p purpose waker = some s') :
    s'.value = s.value ∧ s'.parties =
      s.parties.set p ⟨.waiting purpose (s.sem purpose.which).acquires.length,none,waker⟩ := by
  obtain ⟨sem,-,rfl⟩ := Option.map_eq_some_iff.mp h
  exact ⟨rfl,rfl⟩

theorem step_follows (hp : s.parties[p]? = some ⟨stage,none,waker⟩)
    (h : step s p stage waker = some s') : s'.value = s.value ∧ Follows s s' := by
  cases stage with
  | waiting purpose f =>
    cases waker with
    | none => cases h
    | some waker => exact ⟨(start_parties h).1,.set hp (start_parties h).2 (.refl _)⟩
  | trying purpose => exact ⟨(start_parties h).1,.set hp (start_parties h).2 (.refl _)⟩
  | releasing access reservation result =>
    cases access with
    | some n =>
      exact ⟨(start_parties h).1,.set hp (start_parties h).2 (onward_releasing _ _ _ _ _)⟩
    | none =>
      cases reservation with
      | true =>
        exact ⟨(start_parties h).1,.set hp (start_parties h).2 (onward_releasing _ _ _ _ _)⟩
      | false =>
        cases result with
        | none =>
          cases h
          exact ⟨rfl,.set hp rfl ⟨nofun,fun _ => rfl⟩⟩
        | some mode =>
          cases h
          exact ⟨rfl,.set hp rfl (onward_returned _ _ _)⟩
  | _ => cases h

theorem act_follows {use : Use V W} (hp : s.parties[p]? = some ⟨stage,none,none⟩)
    (h : act s p stage use = some s') :
    (s'.value = s.value ∨ stage = .guard .write) ∧ Follows s s' := by
  have hmove {new : Stage} (hnew : Onward stage new) :
      Follows s (s.setParty p ⟨new,none,none⟩) := .set hp rfl hnew
  cases stage with
  | waiting purpose f =>
    cases use with
    | poll waker => exact ⟨Or.inl (start_parties h).1,.set hp (start_parties h).2 (.refl _)⟩
    | cancel =>
      exact ⟨Or.inl (start_parties h).1,.set hp (start_parties h).2 (onward_cancelling purpose f)⟩
    | _ => cases h
  | guard mode =>
    cases mode with
    | read =>
      cases use with
      | drop =>
        cases h
        exact ⟨Or.inl rfl,hmove ⟨nofun,fun _ => rfl⟩⟩
      | _ => cases h
    | write =>
      cases use with
      | drop | downgrade =>
        cases h
        exact ⟨Or.inl rfl,hmove ⟨nofun,fun _ => rfl⟩⟩
      | store value =>
        cases h
        exact ⟨Or.inr rfl,fun q party hq => ⟨party,hq,.refl _⟩⟩
      | _ => cases h
    | upgradable =>
      cases use with
      | drop | downgrade =>
        cases h
        exact ⟨Or.inl rfl,hmove ⟨fun _ => Or.inr rfl,nofun⟩⟩
      | tryUpgrade =>
        cases h
        exact ⟨Or.inl rfl,hmove ⟨fun _ => Or.inl rfl,nofun⟩⟩
      | upgrade =>
        exact ⟨Or.inl (acquire_parties h).1,.set hp (acquire_parties h).2
          ⟨fun _ => Or.inl rfl,nofun⟩⟩
      | _ => cases h
  | _ => cases use <;> cases h

theorem resume_follows {outcome : Semaphore.Outcome} (hp : s.parties[p]? = some party)
    (h : resume (s.setSem which sem) p party outcome = some s') :
    s'.value = s.value ∧ Follows s s' := by
  have hended (houtcome : outcome ≠ .acquired) : s'.value = s.value ∧ Follows s s' := by
    have heq : resume (s.setSem which sem) p party outcome =
        some ((s.setSem which sem).setParty p ⟨party.stage.ended,none,none⟩) := by
      cases outcome <;> first | rfl | exact absurd rfl houtcome
    cases heq.symm.trans h
    exact ⟨rfl,.set hp rfl party.stage.ended_onward⟩
  cases outcome with
  | acquired =>
    obtain ⟨stage,call,waker⟩ := party
    cases stage with
    | waiting purpose f =>
      cases purpose with
      | reserve kind =>
        exact ⟨(acquire_parties h).1,.set hp (acquire_parties h).2 ⟨nofun,nofun⟩⟩
      | _ =>
        cases h
        exact ⟨rfl,.set hp rfl (Purpose.granted_onward _ f).1⟩
    | trying purpose =>
      cases h
      exact ⟨rfl,.set hp rfl (Purpose.granted_onward purpose 0).2⟩
    | _ =>
      cases h
      exact ⟨rfl,.set hp rfl (.refl _)⟩
  | _ => exact hended (by simp)

theorem next_follows (h : next s a = some s') :
    (s'.value = s.value ∨ ∃ (q : ℕ) (party : Party W), s.parties[q]? = some party ∧
      party.stage = .guard .write) ∧ Follows s s' := by
  cases a with
  | request mode =>
    obtain ⟨hvalue,hparties⟩ := acquire_parties h
    simp only [List.set_append_right _ _ (Nat.le_refl _),Nat.sub_self,List.set_cons_zero] at hparties
    exact ⟨Or.inl hvalue,.push hparties⟩
  | tryLock mode =>
    cases h
    exact ⟨Or.inl rfl,.push rfl⟩
  | use p use =>
    simp only [next] at h
    split at h
    · next stage hp =>
      obtain ⟨hvalue,hfollows⟩ := act_follows hp h
      exact ⟨hvalue.imp_right fun hwrite => ⟨p,_,hp,hwrite⟩,hfollows⟩
    · cases h
  | step p =>
    simp only [next] at h
    split at h
    · next stage waker hp => exact (step_follows hp h).imp_left Or.inl
    · cases h
  | advance p spurious =>
    simp only [next] at h
    split at h
    · next stage which c waker hp =>
      obtain ⟨sem,-,hrest⟩ := Option.bind_eq_some_iff.mp h
      split at hrest
      · exact (resume_follows hp hrest).imp_left Or.inl
      · cases hrest
        exact ⟨Or.inl rfl,fun q party hq => ⟨party,hq,.refl _⟩⟩
    · cases h

/-- The value does not change while party `p` holds its upgradable access. -/
def Kept (p : ℕ) (value : V) (s : State V W) : Prop :=
  ∃ party, s.parties[p]? = some party ∧
    (party.stage.promoting = true ∧ s.value = value ∨ party.stage.past = true)

theorem next_kept {value : V} (hok : Ok s) (hkept : Kept p value s) (hn : next s a = some s') :
    Kept p value s' := by
  obtain ⟨party,hp,hparty⟩ := hkept
  obtain ⟨hvalue,hfollows⟩ := next_follows hn
  obtain ⟨party',hp',honward⟩ := hfollows p party hp
  refine ⟨party',hp',?_⟩
  rcases hparty with ⟨hpromoting,heq⟩ | hpast
  · rcases hvalue with hsame | ⟨q,writer,hq,hwrite⟩
    · exact (honward.1 hpromoting).imp_left fun hnew => ⟨hnew,hsame.trans heq⟩
    · -- the writer owns every data permit, one of which is the party's
      have hpos := party.stage.promoting_tokens hok.readers hpromoting
      have hpq := hok.no_write hp hq hpos (by rw [hwrite]; rfl)
      subst hpq
      cases hp.symm.trans hq
      rw [hwrite] at hpromoting
      cases hpromoting
  · exact Or.inr (honward.2 hpast)

/-- When every party is gone and every call has ended, all permits are back. -/
theorem Ok.returned (h : Ok s) (hdone : ∀ party ∈ s.parties, party.stage = .done)
    (hcalls : ∀ call ∈ (s.sem which).calls, ∃ outcome, call = .finished outcome) :
    (s.sem which).available = permits s.maxReaders which := by
  have hzero {f : Party W → ℕ} (hf : ∀ party ∈ s.parties, f party = 0) :
      Table.total f s.parties = 0 :=
    Table.total_eq_zero.mpr fun _ party hp => hf party (List.mem_of_getElem? hp)
  have htokens := hzero (f:=fun party => party.stage.tokens s.maxReaders which)
    (fun party hmem => by simp only [hdone party hmem]; rfl)
  have hassigned : (s.sem which).assigned = 0 := by
    apply Semaphore.assigned_eq_zero
    intro f hf
    obtain ⟨p,party,hp,hfuture⟩ := h.queued which f hf
    rw [hdone party (List.mem_of_getElem? hp)] at hfuture
    cases hfuture
  have hremaining : (s.sem which).remaining = 0 := by
    apply Table.total_eq_zero.mpr
    intro c call hc
    obtain ⟨outcome,rfl⟩ := hcalls call (List.mem_of_getElem? hc)
    rfl
  have hargument : (s.sem which).argument = 0 := by
    apply Table.total_eq_zero.mpr
    intro c call hc
    obtain ⟨outcome,rfl⟩ := hcalls call (List.mem_of_getElem? hc)
    rfl
  have htotal := h.total which
  omega

/-- Upgrades are atomic and never wait for another write or upgrade, and no permit is lost
or duplicated. -/
structure Atomic (s : State V W) : Prop where
  reserved : ∀ (p q : ℕ) (party party' : Party W), s.parties[p]? = some party →
    s.parties[q]? = some party' → 0 < party.stage.tokens s.maxReaders .reservation →
    0 < party'.stage.tokens s.maxReaders .reservation → p = q
  queued : ∀ id ∈ (s.sem .data).waiters.order, ∃ p purpose, Requests s id p purpose
  single : ∀ id id' p q purpose purpose', id ≠ id' → Requests s id p purpose →
    Requests s id' q purpose' → purpose = .read ∨ purpose' = .read
  excludes : ∀ (p q : ℕ) (party party' : Party W), s.parties[p]? = some party →
    s.parties[q]? = some party' → party.stage.upgradable = true → party'.stage.mode? ≠ some .write
  kept : ∀ (p : ℕ) party run t party', s.parties[p]? = some party → party.stage.upgradable = true →
    (machine V W).exec s run = some t → t.parties[p]? = some party' →
    party'.stage.promoting = true → t.value = s.value
  conserved : ∀ which, (s.sem which).available+(s.sem which).assigned+
    Table.total (·.stage.tokens s.maxReaders which) s.parties+
    ((s.sem which).remaining+(s.sem which).argument) = permits s.maxReaders which
  returned : (∀ party ∈ s.parties, party.stage = .done) →
    ∀ which, (∀ call ∈ (s.sem which).calls, ∃ outcome, call = .finished outcome) →
    (s.sem which).available = permits s.maxReaders which
  sound : ∀ which, ∀ call ∈ (s.sem which).calls, ∀ message remaining,
    call ≠ .panicked message remaining

theorem atomic_upgrade (h : (machine V W).Reachable s) : Atomic s := by
  have hok := reachable_ok h
  refine ⟨fun p q party party' => hok.reservation_unique,fun id => hok.requests,
    fun id id' p q purpose purpose' => hok.requests_read,?_,?_,hok.total,
    fun hdone which => hok.returned hdone,fun which => (hok.lease which).sound⟩
  · intro p q party party' hp hq hup hwrite
    have hpos := party.stage.promoting_tokens hok.readers (Stage.promoting_of_upgradable hup)
    have hpq := hok.no_write hp hq hpos hwrite
    subst hpq
    cases hp.symm.trans hq
    cases hs : party.stage <;> simp_all [Stage.mode?,Stage.upgradable]
  · intro p party run t party' hp hup hrun hp' hpromoting
    have hrun' := (machine V W).exec_invariant (fun _ => True) (fun u => Ok u ∧ Kept p s.value u)
      (fun u a v _ hu hn => ⟨next_ok hu.1 hn,next_kept hu.1 hu.2 hn⟩) (fun _ _ => trivial)
      ⟨hok,party,hp,Or.inl ⟨Stage.promoting_of_upgradable hup,rfl⟩⟩ hrun
    obtain ⟨-,last,hlast,hkept⟩ := hrun'
    cases hp'.symm.trans hlast
    rcases hkept with ⟨-,heq⟩ | hpast
    · exact heq
    · rw [Stage.not_past_of_promoting hpromoting] at hpast
      cases hpast

end Steps

/-- An upgradable guard next to a reader; its upgrade waits for the reader. -/
def upgradeRun : List (Action ℕ ℕ) :=
  [.tryLock .upgradable,.step 0,.advance 0 false,.advance 0 false,.step 0,.advance 0 false,
    .advance 0 false,.tryLock .read,.step 1,.advance 1 false,.advance 1 false,
    .use 0 .upgrade,.use 0 (.poll 7),.advance 0 false,.advance 0 false,.advance 0 false]

/-- The reader leaves and the upgrade completes. -/
def promoteRun : List (Action ℕ ℕ) :=
  [.use 1 .drop,.step 1,.advance 1 false,.advance 1 false,.advance 1 false,.advance 1 false,
    .use 0 (.poll 7),.advance 0 false]

theorem atomic_upgrade_promoteRun :
    ∃ s t, (machine ℕ ℕ).exec (withMaxReaders ℕ 5 2) upgradeRun = some s ∧
      (s.sem .data).waiters.order.length = 1 ∧
      (s.parties[0]?).map (·.stage.upgradable) = some true ∧
      (machine ℕ ℕ).exec s promoteRun = some t ∧
      (t.parties[0]?).map Party.stage = some (.releasing none true (some .write)) ∧
      t.value = s.value := by
  refine ⟨_,_,rfl,rfl,rfl,rfl,rfl,?_⟩
  have hreach : (machine ℕ ℕ).Reachable
      (((machine ℕ ℕ).exec (withMaxReaders ℕ 5 2) upgradeRun).getD (withMaxReaders ℕ 5 2)) :=
    ⟨_,upgradeRun,⟨5,2,by decide,by decide,rfl⟩,fun _ _ => trivial,rfl⟩
  exact (atomic_upgrade hreach).kept 0 _ promoteRun _ _ rfl rfl rfl rfl rfl

end UpgradableRwLock
end Asyncband
