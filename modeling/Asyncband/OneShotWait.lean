import Asyncband.Table
import Asyncband.WakerSet

/-! Futures that wait for a condition which never lapses.
`CountdownState`, the wait group's `State` and `Completion` share this side of their code:
a poll looks at the condition, takes the waiter lock, looks again and registers. The
condition belongs to the other side and is not protected by the lock, so it can become met
while a future holds the lock; a future inside the lock is therefore a state of its own.
`met` is the condition at the moment of the step. -/
namespace Asyncband
namespace OneShot

inductive Stage (W : Type)
  | idle (token : Option SlotId)
  /-- A poll has looked at the condition and does not hold the lock yet. -/
  | polling (token : Option SlotId) (waker : W)
  | registering (token : Option SlotId) (waker : W)
  | ready
  | dropping (token : SlotId)
  | unregistering (token : SlotId)
  | dropped
  deriving DecidableEq

structure Wait (W : Type) where
  stage : Stage W
  /-- Ghost: the slot of the future's registration. A future that finds the condition met
  forgets its token and leaves the slot to the wake-up. -/
  entry : Option SlotId
  /-- Ghost: the waker of the latest poll that returned pending. -/
  lastWaker : Option W

namespace Wait

variable {W : Type}

def token (c : Wait W) : Option SlotId :=
  match c.stage with
  | .idle token => token
  | .polling token _ => token
  | .registering token _ => token
  | .dropping token => some token
  | .unregistering token => some token
  | _ => none

def alive (c : Wait W) : Bool :=
  match c.stage with
  | .dropped => false
  | _ => true

def inside (c : Wait W) : Bool :=
  match c.stage with
  | .registering _ _ => true
  | .unregistering _ => true
  | _ => false

def Fits (met : Bool) (c : Wait W) : Prop :=
  match c.stage with
  | .ready => met = true
  | .dropped => met = false → c.entry = none
  | _ => c.entry = c.token

end Wait

structure Gate (W : Type) where
  waiters : WakerSet W
  lock : Option ℕ
  waits : List (Wait W)
  /-- Ghost: the wake-up has run, or the condition was met from the start. -/
  notified : Bool
  /-- Ghost: the wakers that were taken to be woken. -/
  woken : List W

def Gate.new (W : Type) (met : Bool) : Gate W := ⟨.new,none,[],met,[]⟩

/-- The steps of the futures: a poll, its two steps behind the lock, and the same for the
destructor. -/
inductive WaitAction (W : Type)
  | poll (f : ℕ) (waker : W) | recheck (f : ℕ) | register (f : ℕ)
  | drop (f : ℕ) | recheckDrop (f : ℕ) | unregister (f : ℕ)

namespace Gate

variable {W : Type} {g : Gate W} {met : Bool}

def setWait (g : Gate W) (f : ℕ) (c : Wait W) : Gate W := {g with waits := g.waits.set f c}

def wait (g : Gate W) : Gate W := {g with waits := g.waits++[⟨.idle none,none,none⟩]}

/-- `mem::take` of the waiters under their lock, and the wake-up behind it. -/
def wakeAll (g : Gate W) : Gate W :=
  {g with waiters := .new,notified := true,woken := g.woken++g.waiters.wakeAll}

/-- The look at the condition that needs no lock. -/
def pollWait (met : Bool) (g : Gate W) (f : ℕ) (c : Wait W) (token : Option SlotId) (waker : W) :
    Gate W :=
  if met then g.setWait f {c with stage := .ready}
  else g.setWait f {c with stage := .polling token waker}

def poll (met : Bool) (g : Gate W) (f : ℕ) (c : Wait W) (waker : W) : Option (Gate W) :=
  match c.stage with
  | .idle token => some (g.pollWait met f c token waker)
  | .ready => some (g.pollWait met f c none waker)
  | _ => none

/-- The second look of a poll, under the lock. -/
def recheck (met : Bool) (g : Gate W) (f : ℕ) (c : Wait W) : Option (Gate W) :=
  match c.stage with
  | .polling token waker =>
    if g.lock = none then
      some (if met then g.setWait f {c with stage := .ready}
        else {g.setWait f {c with stage := .registering token waker} with lock := some f})
    else none
  | _ => none

def register [Wake W] (g : Gate W) (f : ℕ) (c : Wait W) : Option (Except String (Gate W)) :=
  match c.stage with
  | .registering token waker => some do
    let (token,waiters) ← g.waiters.register token waker
    .ok {g.setWait f ⟨.idle (some token),some token,some waker⟩ with waiters := waiters,lock := none}
  | _ => none

/-- `early`: the destructor looks at the condition before it takes the lock. -/
def drop (early met : Bool) (g : Gate W) (f : ℕ) (c : Wait W) : Option (Gate W) :=
  match c.stage with
  | .idle (some token) =>
    some (g.setWait f {c with stage := if early && met then .dropped else .dropping token})
  | .idle none => some (g.setWait f {c with stage := .dropped})
  | .ready => some (g.setWait f {c with stage := .dropped})
  | _ => none

/-- The look of the destructor under the lock. -/
def recheckDrop (met : Bool) (g : Gate W) (f : ℕ) (c : Wait W) : Option (Gate W) :=
  match c.stage with
  | .dropping token =>
    if g.lock = none then
      some (if met then g.setWait f {c with stage := .dropped}
        else {g.setWait f {c with stage := .unregistering token} with lock := some f})
    else none
  | _ => none

def unregister (g : Gate W) (f : ℕ) (c : Wait W) : Option (Except String (Gate W)) :=
  match c.stage with
  | .unregistering token => some do
    let waiters ← g.waiters.unregister (some token)
    .ok {g.setWait f {c with stage := .dropped,entry := none} with waiters := waiters,lock := none}
  | _ => none

def act [Wake W] (early met : Bool) (g : Gate W) : WaitAction W → Option (Except String (Gate W))
  | .poll f waker => g.waits[f]?.bind fun c => (g.poll met f c waker).map .ok
  | .recheck f => g.waits[f]?.bind fun c => (g.recheck met f c).map .ok
  | .register f => g.waits[f]?.bind fun c => g.register f c
  | .drop f => g.waits[f]?.bind fun c => (g.drop early met f c).map .ok
  | .recheckDrop f => g.waits[f]?.bind fun c => (g.recheckDrop met f c).map .ok
  | .unregister f => g.waits[f]?.bind fun c => g.unregister f c

/-- How many owners have the wake-up still ahead of them. -/
def due (met : Bool) (g : Gate W) : ℕ := if met && !g.notified then 1 else 0

theorem due_unmet (g : Gate W) : g.due false = 0 := rfl

theorem due_met (hn : g.notified = false) : g.due true = 1 := by
  rw [due,hn]
  rfl

theorem due_wakeAll (met : Bool) (g : Gate W) : g.wakeAll.due met = 0 := by
  cases met <;> rfl

theorem due_pos (h : 0 < g.due met) : met = true ∧ g.notified = false := by
  rw [due] at h
  split at h
  · next hdue => simpa using hdue
  · cases h

/-- What the futures' own steps leave alone. -/
def Keeps (g g' : Gate W) : Prop := g'.notified = g.notified ∧ g'.woken = g.woken

theorem Keeps.due {g' : Gate W} (h : Keeps g g') (met : Bool) : g'.due met = g.due met := by
  rw [Gate.due,Gate.due,h.1]

/-- Until the wake-up the occupied slots are those of the registrations, and behind it the
set stays empty. -/
structure Ok [Wake W] (met : Bool) (g : Gate W) : Prop where
  order : g.notified = true → met = true
  enrolled : g.notified = false →
    Enrolled g.waiters (Table.lookup Wait.entry g.waits) (Table.lookup Wait.lastWaker g.waits)
  emptied : g.notified = true → ∀ id, g.waiters.wakers.get? id = none
  told : g.notified = true → ∀ (f : ℕ) c, g.waits[f]? = some c → c.entry ≠ none →
    ∃ waker ∈ g.woken, Reaches waker c.lastWaker
  rows : ∀ (f : ℕ) c, g.waits[f]? = some c → c.Fits met
  locked : ∀ (f : ℕ) c, g.waits[f]? = some c → (c.inside = true ↔ g.lock = some f)
  holder : ∀ f, g.lock = some f → g.notified = false ∧ f < g.waits.length

namespace Ok

variable [Wake W] {early met : Bool} {g : Gate W} {f : ℕ} {c : Wait W}
variable {lock : Option ℕ} {stage : Stage W} {g' : Gate W} {x : Except String (Gate W)}

theorem new (met : Bool) : Ok met (Gate.new W met) where
  order h := h
  enrolled _ := Enrolled.of_empty (fun _ => rfl) _
  emptied _ _ := rfl
  told _ f c hc := by cases hc
  rows f c hc := by cases hc
  locked f c hc := by cases hc
  holder f hf := by cases hf

theorem wait (h : Ok met g) : Ok met g.wait := by
  refine ⟨h.order,?_,h.emptied,?_,?_,?_,?_⟩
  · intro hn
    show Enrolled g.waiters (Table.lookup Wait.entry (g.waits++[_]))
      (Table.lookup Wait.lastWaker (g.waits++[_]))
    rw [Table.lookup_push _ rfl,Table.lookup_push _ rfl]
    exact h.enrolled hn
  · intro hn f c hc hentry
    rcases Table.getElem?_push hc with hc | ⟨-,rfl⟩
    · exact h.told hn f c hc hentry
    · exact absurd rfl hentry
  · exact Table.forall_push h.rows rfl
  · intro f c hc
    rcases Table.getElem?_push hc with hc | ⟨rfl,rfl⟩
    · exact h.locked f c hc
    · refine iff_of_false (by simp [Wait.inside]) fun hlock => ?_
      exact absurd (h.holder _ hlock).2 (Nat.lt_irrefl _)
  · intro f hlock
    obtain ⟨hn,hlt⟩ := h.holder f hlock
    exact ⟨hn,by simpa [Gate.wait] using Nat.lt_succ_of_lt hlt⟩

section

variable (h : Ok met g) (hf : g.waits[f]? = some c)
include h hf

theorem change {c' : Wait W} {waiters : WakerSet W} (hrow : c'.Fits met)
    (hset : g.notified = false → Enrolled waiters
      (Function.update (Table.lookup Wait.entry g.waits) f c'.entry)
      (Function.update (Table.lookup Wait.lastWaker g.waits) f c'.lastWaker))
    (hquiet : g.notified = true →
      waiters = g.waiters ∧ c'.entry = c.entry ∧ c'.lastWaker = c.lastWaker)
    (hself : c'.inside = true ↔ lock = some f) (hhold : lock = some f → g.notified = false)
    (hother : ∀ q, q ≠ f → (lock = some q ↔ g.lock = some q)) :
    Ok met {g.setWait f c' with waiters := waiters,lock := lock} := by
  refine ⟨h.order,?_,?_,?_,?_,?_,?_⟩
  · intro hn
    show Enrolled waiters (Table.lookup Wait.entry (g.waits.set f c'))
      (Table.lookup Wait.lastWaker (g.waits.set f c'))
    rw [Table.lookup_set _ hf,Table.lookup_set _ hf]
    exact hset hn
  · intro hn id
    show waiters.wakers.get? id = none
    rw [(hquiet hn).1]
    exact h.emptied hn id
  · intro hn q d hd hentry
    rcases Table.getElem?_set_cases hd with ⟨-,rfl⟩ | ⟨-,hd⟩
    · obtain ⟨-,he,hl⟩ := hquiet hn
      rw [hl]
      exact h.told hn f c hf (he ▸ hentry)
    · exact h.told hn q d hd hentry
  · exact Table.forall_set h.rows hrow
  · intro q d hd
    rcases Table.getElem?_set_cases hd with ⟨rfl,rfl⟩ | ⟨hq,hd⟩
    · exact hself
    · exact (h.locked q d hd).trans (hother q hq).symm
  · intro q hq
    show g.notified = false ∧ q < (g.waits.set f c').length
    rw [List.length_set]
    by_cases hqf : q = f
    · subst hqf
      exact ⟨hhold hq,(List.getElem?_eq_some_iff.mp hf).1⟩
    · exact h.holder q ((hother q hqf).mp hq)

theorem restage (hrow : Wait.Fits met {c with stage := stage})
    (hself : Wait.inside {c with stage := stage} = true ↔ lock = some f)
    (hhold : lock = some f → g.notified = false)
    (hother : ∀ q, q ≠ f → (lock = some q ↔ g.lock = some q)) :
    Ok met {g.setWait f {c with stage := stage} with lock := lock} := by
  refine h.change hf hrow (fun hn => ?_) (fun _ => ⟨rfl,rfl,rfl⟩) hself hhold hother
  rw [Table.update_lookup _ hf _ rfl,Table.update_lookup _ hf _ rfl]
  exact h.enrolled hn

theorem outside (hrow : Wait.Fits met {c with stage := stage}) (hc : c.inside = false)
    (hstage : Wait.inside {c with stage := stage} = false) :
    Ok met (g.setWait f {c with stage := stage}) := by
  have hlock : g.lock ≠ some f := by
    intro hlock
    rw [(h.locked f c hf).mpr hlock] at hc
    cases hc
  exact h.restage hf hrow (iff_of_false (by simp [hstage]) hlock) (fun hl => absurd hl hlock)
    fun q _ => Iff.rfl

end

theorem open_of_unmet (h : Ok false g) : g.notified = false :=
  Bool.eq_false_iff.mpr fun hn => by cases h.order hn

theorem enter (h : Ok false g) (hf : g.waits[f]? = some c) (hlock : g.lock = none)
    (hrow : Wait.Fits false {c with stage := stage})
    (hstage : Wait.inside {c with stage := stage} = true) :
    Ok false {g.setWait f {c with stage := stage} with lock := some f} := by
  refine h.restage hf hrow (iff_of_true hstage rfl) (fun _ => h.open_of_unmet) fun q hq => ?_
  rw [hlock]
  simp [Ne.symm hq]

section

variable (h : Ok met g) (hf : g.waits[f]? = some c)
include h hf

theorem poll {waker : W} (hx : g.poll met f c waker = some g') : Ok met g' ∧ Keeps g g' := by
  obtain ⟨stage,entry,last⟩ := c
  have hrow := h.rows f _ hf
  cases stage with
  | idle token =>
    cases hx
    rw [pollWait]
    split
    · next hmet => exact ⟨h.outside hf hmet rfl rfl,rfl,rfl⟩
    · exact ⟨h.outside hf hrow rfl rfl,rfl,rfl⟩
  | ready =>
    cases hx
    have hmet : met = true := hrow
    rw [pollWait,if_pos hmet]
    exact ⟨h.outside hf hmet rfl rfl,rfl,rfl⟩
  | _ => cases hx

theorem recheck (hx : g.recheck met f c = some g') : Ok met g' ∧ Keeps g g' := by
  obtain ⟨stage,entry,last⟩ := c
  have hrow := h.rows f _ hf
  cases stage with
  | polling token waker =>
    obtain ⟨hlock,⟨⟩⟩ := Option.ite_none_right_eq_some.mp hx
    cases met with
    | true => exact ⟨h.outside hf rfl rfl rfl,rfl,rfl⟩
    | false => exact ⟨h.enter hf hlock hrow rfl,rfl,rfl⟩
  | _ => cases hx

/-- Nobody but the future inside can hold the lock, and the wake-up has not run. -/
theorem inside (hc : c.inside = true) :
    g.notified = false ∧ ∀ q, q ≠ f → ((none : Option ℕ) = some q ↔ g.lock = some q) := by
  have hlock := (h.locked f c hf).mp hc
  refine ⟨(h.holder f hlock).1,fun q hq => ?_⟩
  rw [hlock]
  simp [Ne.symm hq]

/-- The token of a registration is still good, also if the condition was met meanwhile. -/
theorem register (hx : g.register f c = some x) : ∃ g', x = .ok g' ∧ Ok met g' ∧ Keeps g g' := by
  obtain ⟨stage,entry,last⟩ := c
  have hrow := h.rows f _ hf
  cases stage with
  | registering token waker =>
    cases hx
    obtain ⟨hn,hother⟩ := h.inside hf rfl
    obtain ⟨id,w,hreg,henrolled⟩ := (h.enrolled hn).register f waker
    obtain rfl : entry = token := hrow
    rw [Table.lookup_eq hf] at hreg
    refine ⟨{g.setWait f ⟨.idle (some id),some id,some waker⟩ with waiters := w,lock := none},?_,?_,
      rfl,rfl⟩
    · simp only [hreg,bind,Except.bind]
    · exact h.change hf rfl (fun _ => henrolled) (fun ht => absurd ht (by simp [hn]))
        (iff_of_false (by simp [Wait.inside]) (by simp)) (by simp) hother
  | _ => cases hx

theorem drop (hx : g.drop early met f c = some g') : Ok met g' ∧ Keeps g g' := by
  obtain ⟨stage,entry,last⟩ := c
  have hrow := h.rows f _ hf
  cases stage with
  | idle token =>
    cases token with
    | none =>
      cases hx
      exact ⟨h.outside hf (fun _ => hrow) rfl rfl,rfl,rfl⟩
    | some id =>
      cases hx
      split
      · next hmet =>
        refine ⟨h.outside hf (fun hno => ?_) rfl rfl,rfl,rfl⟩
        simp [hno] at hmet
      · exact ⟨h.outside hf hrow rfl rfl,rfl,rfl⟩
  | ready =>
    cases hx
    refine ⟨h.outside hf (fun hno => ?_) rfl rfl,rfl,rfl⟩
    have hmet : met = true := hrow
    rw [hmet] at hno
    cases hno
  | _ => cases hx

theorem recheckDrop (hx : g.recheckDrop met f c = some g') : Ok met g' ∧ Keeps g g' := by
  obtain ⟨stage,entry,last⟩ := c
  have hrow := h.rows f _ hf
  cases stage with
  | dropping token =>
    obtain ⟨hlock,⟨⟩⟩ := Option.ite_none_right_eq_some.mp hx
    cases met with
    | true => exact ⟨h.outside hf (fun hno => by cases hno) rfl rfl,rfl,rfl⟩
    | false => exact ⟨h.enter hf hlock hrow rfl,rfl,rfl⟩
  | _ => cases hx

theorem unregister (hx : g.unregister f c = some x) : ∃ g', x = .ok g' ∧ Ok met g' ∧ Keeps g g' := by
  obtain ⟨stage,entry,last⟩ := c
  have hrow := h.rows f _ hf
  cases stage with
  | unregistering token =>
    cases hx
    obtain ⟨hn,hother⟩ := h.inside hf rfl
    obtain rfl : entry = some token := hrow
    obtain ⟨w,hun,-,henrolled⟩ := (h.enrolled hn).unregister (Table.lookup_eq hf)
    refine ⟨{g.setWait f ⟨.dropped,none,last⟩ with waiters := w,lock := none},?_,?_,rfl,rfl⟩
    · simp only [hun,bind,Except.bind]
    · refine h.change hf (fun _ => rfl) (fun _ => ?_) (fun ht => absurd ht (by simp [hn]))
        (iff_of_false (by simp [Wait.inside]) (by simp)) (by simp) hother
      rw [Table.update_lookup Wait.lastWaker hf _ rfl]
      exact henrolled
  | _ => cases hx

end

theorem act (h : Ok met g) {a : WaitAction W} (hx : g.act early met a = some x) :
    ∃ g', x = .ok g' ∧ Ok met g' ∧ Keeps g g' := by
  cases a with
  | poll f waker =>
    obtain ⟨c,hf,hx⟩ := Option.bind_eq_some_iff.mp hx
    obtain ⟨g',hg,rfl⟩ := Option.map_eq_some_iff.mp hx
    exact ⟨g',rfl,h.poll hf hg⟩
  | recheck f =>
    obtain ⟨c,hf,hx⟩ := Option.bind_eq_some_iff.mp hx
    obtain ⟨g',hg,rfl⟩ := Option.map_eq_some_iff.mp hx
    exact ⟨g',rfl,h.recheck hf hg⟩
  | register f =>
    obtain ⟨c,hf,hx⟩ := Option.bind_eq_some_iff.mp hx
    exact h.register hf hx
  | drop f =>
    obtain ⟨c,hf,hx⟩ := Option.bind_eq_some_iff.mp hx
    obtain ⟨g',hg,rfl⟩ := Option.map_eq_some_iff.mp hx
    exact ⟨g',rfl,h.drop hf hg⟩
  | recheckDrop f =>
    obtain ⟨c,hf,hx⟩ := Option.bind_eq_some_iff.mp hx
    obtain ⟨g',hg,rfl⟩ := Option.map_eq_some_iff.mp hx
    exact ⟨g',rfl,h.recheckDrop hf hg⟩
  | unregister f =>
    obtain ⟨c,hf,hx⟩ := Option.bind_eq_some_iff.mp hx
    exact h.unregister hf hx

/-- The condition becomes met. A future inside the lock goes on with what it has seen. -/
theorem trip (h : Ok false g) : Ok true g := by
  refine ⟨fun _ => rfl,h.enrolled,h.emptied,h.told,?_,h.locked,h.holder⟩
  intro f c hc
  have hrow := h.rows f c hc
  rw [Wait.Fits] at hrow ⊢
  split at hrow
  · cases hrow
  · exact fun hno => by cases hno
  · exact hrow

theorem wakeAll (h : Ok true g) (hlock : g.lock = none) : Ok true g.wakeAll := by
  refine ⟨fun _ => rfl,?_,fun _ _ => rfl,?_,h.rows,h.locked,?_⟩
  · intro hn
    cases hn
  · intro _ f c hc hentry
    have hc : g.waits[f]? = some c := hc
    cases hn : g.notified with
    | true =>
      obtain ⟨waker,hw,hreach⟩ := h.told hn f c hc hentry
      exact ⟨waker,List.mem_append_left _ hw,hreach⟩
    | false =>
      obtain ⟨id,hid⟩ := Option.ne_none_iff_exists'.mp hentry
      obtain ⟨waker,hget,hreach⟩ := (h.enrolled hn).held f id ((Table.lookup_eq hc).trans hid)
      rw [Table.lookup_eq hc] at hreach
      exact ⟨waker,List.mem_append_right _ (WakerSet.mem_wakeAll.mpr ⟨id,hget⟩),hreach⟩
  · intro f hf
    have hnone : g.lock = some f := hf
    rw [hlock] at hnone
    cases hnone

end Ok

structure Contract [Wake W] (met : Bool) (g : Gate W) : Prop where
  /-- Only the met condition makes a future ready. -/
  ready : ∀ (f : ℕ) c, g.waits[f]? = some c → c.stage = .ready → met = true
  /-- Unmet, the tokens are the occupied slots, each with its future's latest waker. -/
  enrolled : met = false →
    Enrolled g.waiters (Table.lookup Wait.token g.waits) (Table.lookup Wait.lastWaker g.waits)
  /-- Before the wake-up no token is stale, also if the condition is met already. -/
  held : g.notified = false → ∀ (f : ℕ) c id, g.waits[f]? = some c → c.token = some id →
    ∃ waker, g.waiters.wakers.get? id = some waker ∧ Reaches waker c.lastWaker
  /-- Behind the wake-up the latest waker of every pending future was taken, -/
  told : g.notified = true → ∀ (f : ℕ) c id, g.waits[f]? = some c → c.stage = .idle (some id) →
    ∃ waker ∈ g.woken, Reaches waker c.lastWaker
  /-- and no waker is registered. -/
  closed : g.notified = true → ∀ id, g.waiters.wakers.get? id = none
  /-- A poll that finds the condition met returns at once. -/
  returns : met = true → ∀ f c waker g', g.waits[f]? = some c → g.poll met f c waker = some g' →
    ∃ c', g'.waits[f]? = some c' ∧ c'.stage = .ready

theorem Ok.entry_of_token [Wake W] (h : Ok met g) {f : ℕ} {c : Wait W} {id : SlotId}
    (hf : g.waits[f]? = some c) (htoken : c.token = some id) : c.entry = some id := by
  have hrow := h.rows f c hf
  obtain ⟨stage,entry,last⟩ := c
  cases stage with
  | ready => cases htoken
  | dropped => cases htoken
  | _ => exact hrow.trans htoken

theorem Ok.token_eq_entry [Wake W] (h : Ok false g) :
    Table.lookup Wait.token g.waits = Table.lookup Wait.entry g.waits := by
  funext f
  rw [Table.lookup,Table.lookup]
  refine Option.bind_congr fun c hc => ?_
  have hrow := h.rows f c hc
  obtain ⟨stage,entry,last⟩ := c
  cases stage with
  | ready => cases hrow
  | dropped => exact (hrow rfl).symm
  | _ => exact hrow.symm

theorem Ok.contract [Wake W] (h : Ok met g) : Contract met g where
  ready f c hf hc := by
    have hrow := h.rows f c hf
    rwa [Wait.Fits,hc] at hrow
  enrolled hmet := by
    subst hmet
    rw [h.token_eq_entry]
    exact h.enrolled h.open_of_unmet
  held hn f c id hf hc := by
    have hslot := (Table.lookup_eq hf).trans (h.entry_of_token hf hc)
    obtain ⟨waker,hget,hreach⟩ := (h.enrolled hn).held f id hslot
    rw [Table.lookup_eq hf] at hreach
    exact ⟨waker,hget,hreach⟩
  told hn f c id hf hc := by
    refine h.told hn f c hf ?_
    rw [h.entry_of_token hf (by rw [Wait.token,hc])]
    simp
  closed := h.emptied
  returns hmet f c waker g' hf hx := by
    obtain ⟨stage,entry,last⟩ := c
    cases stage with
    | idle | ready =>
      cases hx
      rw [pollWait,if_pos hmet]
      exact ⟨_,Table.getElem?_set_self' hf _,rfl⟩
    | _ => cases hx

end Gate
end OneShot
end Asyncband
