import Asyncband.Table
import Asyncband.Watch

/-! What the receivers of a watch channel observe.
The versions are the positions of the history of published values. A receiver's own version
moves only when a call returns a value or a change, and then to the version that is current
at that moment. A token counts as long as its `Change` has seen the current version and a
sender is left; the tokens that count are the occupied slots. -/
namespace Asyncband
namespace Watch

variable {T W : Type} {c : Receiver T W} {s t : State T W}

def Call.Fits (version seen : ℕ) (published : List T) : Call T → Prop
  | .idle (some (.received value)) => published[seen]? = some value
  | .idle _ => True
  | .waiting _ since _ => since = seen
  | .reading => seen < version

theorem Call.Fits.grow {version seen : ℕ} {published : List T} {call : Call T}
    (h : call.Fits version seen published) (value : T) :
    call.Fits (version+1) seen (published++[value]) := by
  cases call with
  | idle last =>
    cases last with
    | none => trivial
    | some outcome =>
      cases outcome with
      | received v => exact Table.getElem?_push_old h value
      | _ => trivial
  | waiting recv since token => exact h
  | reading => exact Nat.lt_succ_of_lt h

structure Receiver.Fits [Wake W] (s : State T W) (c : Receiver T W) : Prop where
  seen_le : c.seen ≤ s.version
  call : c.call.Fits s.version c.seen s.published
  told : ∀ recv since id, c.call = .waiting recv since (some id) →
    c.token s.version s.senders = none → ∃ waker ∈ s.woken.drop c.mark, Reaches waker c.lastWaker
  marked : c.mark ≤ s.woken.length

theorem Receiver.Fits.congr [Wake W] (h : c.Fits s) (hsame : (t.version,t.senders,t.published,t.woken) =
    (s.version,s.senders,s.published,s.woken)) : c.Fits t := by
  simp only [Prod.mk.injEq] at hsame
  obtain ⟨hversion,hsenders,hpublished,hwoken⟩ := hsame
  refine ⟨?_,?_,?_,?_⟩
  · rw [hversion]
    exact h.seen_le
  · rw [hversion,hpublished]
    exact h.call
  · rw [hversion,hsenders,hwoken]
    exact h.told
  · rw [hwoken]
    exact h.marked

theorem Receiver.free_cases (hc : c.free = true) : c.alive = true ∧ ∃ last, c.call = .idle last := by
  rw [Receiver.free] at hc
  split at hc
  · next last hcall => exact ⟨hc,last,hcall⟩
  · cases hc

def Receiver.counts (c : Receiver T W) : ℕ := if c.alive then 1 else 0

/-- The panics that are left: a counter is at its maximum. -/
def State.Overflow (s : State T W) (message : String) : Prop :=
  message = "watch channel version counter overflowed" ∧ ¬ s.version < u64Max ∨
    message = "watch sender count overflowed" ∧ ¬ s.senders < usizeMax ∨
    message = "watch receiver count overflowed" ∧ ¬ s.receivers < usizeMax

structure Ok [Wake W] (s : State T W) : Prop where
  length : s.published.length = s.version+1
  current : s.published[s.version]? = some s.value
  senders : s.senders = Table.total Bool.toNat s.handles
  receivers : s.receivers = Table.total Receiver.counts s.observers
  rows : ∀ (r : ℕ) c, s.observers[r]? = some c → c.Fits s
  enrolled : Enrolled s.waiters (Table.lookup (Receiver.token s.version s.senders) s.observers)
    (Table.lookup Receiver.lastWaker s.observers)

inductive Observed (s : State T W) (c c' : Receiver T W) : Prop
  | rests (hcall : c'.call = c.call) (hseen : c'.seen = c.seen)
  | starts (recv : Bool) (hcall : c'.call = .waiting recv c.seen none) (hseen : c'.seen = c.seen)
  | waits (recv : Bool) (since : ℕ) (token : SlotId) (hcall : c'.call = .waiting recv since (some token))
      (hseen : c'.seen = c.seen)
  | finds (since : ℕ) (token : Option SlotId) (hcall : c.call = .waiting true since token)
      (hcall' : c'.call = .reading) (hlt : c.seen < s.version) (hseen : c'.seen = c.seen)
  | changes (hcall : c'.call = .idle (some .changed)) (hlt : c.seen < s.version)
      (hseen : c'.seen = s.version)
  | receives (hcall : c'.call = .idle (some (.received s.value))) (hlt : c.seen < s.version)
      (hseen : c'.seen = s.version)
  | fails (hcall : c'.call = .idle (some (.failed .disconnected))) (hsenders : s.senders = 0)
      (hfinal : c.seen = s.version) (hseen : c'.seen = c.seen)
  | cancels (hcall : c'.call = .idle (some .cancelled)) (hseen : c'.seen = c.seen)
  | unwinds (hcall : c'.call = .idle (some .unwound)) (hseen : c'.seen = c.seen)

/-- What a step does to the channel as a whole. -/
structure Moves (s t : State T W) : Prop where
  history : s.published <+: t.published
  final : s.senders = 0 → t.senders = 0 ∧ t.version = s.version ∧ t.value = s.value
  observers : ∀ (r : ℕ) c, s.observers[r]? = some c → ∃ c', t.observers[r]? = some c' ∧ Observed s c c'

structure Steps (s t : State T W) : Prop extends Moves s t where
  calm : t.panicked = s.panicked

theorem Steps.of_observers (hcalm : t.panicked = s.panicked) (hpublished : t.published = s.published)
    (hsenders : t.senders = s.senders) (hversion : t.version = s.version) (hvalue : t.value = s.value)
    (hobservers : ∀ (r : ℕ) c, s.observers[r]? = some c →
      ∃ c', t.observers[r]? = some c' ∧ Observed s c c') : Steps s t :=
  ⟨⟨by rw [hpublished],fun hs => ⟨hsenders.trans hs,hversion,hvalue⟩,hobservers⟩,hcalm⟩

theorem Steps.refl (s : State T W) : Steps s s :=
  .of_observers rfl rfl rfl rfl rfl fun _ c hc => ⟨c,hc,.rests rfl rfl⟩

theorem Steps.setReceiver {r : ℕ} (hr : s.observers[r]? = some c) (c' : Receiver T W)
    (hobs : Observed s c c') (waiters : WakerSet W) (receivers : ℕ) :
    Steps s {s.setReceiver r c' with waiters := waiters,receivers := receivers} := by
  refine .of_observers rfl rfl rfl rfl rfl fun q d hd => ?_
  by_cases hq : q = r
  · subst hq
    rw [hr] at hd
    cases hd
    exact ⟨c',Table.getElem?_set_self' hr c',hobs⟩
  · exact ⟨d,by rw [← hd]; exact List.getElem?_set_ne (Ne.symm hq),.rests rfl rfl⟩

namespace Ok

variable [Wake W] {s t : State T W} {r : ℕ} {c : Receiver T W}
variable {seen since i : ℕ} {recv : Bool} {token : Option SlotId} {x : Except String (State T W)}

theorem channel (initial : T) : Ok (channel W initial) where
  length := rfl
  current := rfl
  senders := rfl
  receivers := rfl
  rows r c hc := by
    rcases r with - | r
    · cases hc
      exact ⟨le_rfl,trivial,nofun,le_rfl⟩
    · cases hc
  enrolled := by
    have hslot : Table.lookup (Receiver.token 0 1) [(⟨true,0,.idle none,none,0⟩ : Receiver T W)] =
        fun _ => none := by
      rw [← List.nil_append [_],Table.lookup_push _ rfl]
      rfl
    show Enrolled .new (Table.lookup (Receiver.token 0 1) [_]) _
    rw [hslot]
    exact Enrolled.of_empty (fun _ => rfl) _

section

variable (h : Ok s) (hr : s.observers[r]? = some c)
include h hr

theorem setReceiver {c' : Receiver T W} {waiters : WakerSet W} (halive : c'.alive = c.alive)
    (hfits : c'.Fits s) (henrolled : Enrolled waiters
      (Function.update (Table.lookup (Receiver.token s.version s.senders) s.observers) r
        (c'.token s.version s.senders))
      (Function.update (Table.lookup Receiver.lastWaker s.observers) r c'.lastWaker)) :
    Ok {s.setReceiver r c' with waiters := waiters} where
  length := h.length
  current := h.current
  senders := h.senders
  receivers := by
    have htotal := Table.total_set Receiver.counts hr c'
    have hcounts : c'.counts = c.counts := by rw [Receiver.counts,Receiver.counts,halive]
    rw [hcounts] at htotal
    exact h.receivers.trans (Nat.add_right_cancel htotal).symm
  rows q d hd := by
    rcases Table.getElem?_set_cases hd with ⟨-,rfl⟩ | ⟨-,hd⟩
    · exact hfits.congr rfl
    · exact (h.rows q d hd).congr rfl
  enrolled := by
    show Enrolled waiters (Table.lookup (Receiver.token s.version s.senders) (s.observers.set r c'))
      (Table.lookup Receiver.lastWaker (s.observers.set r c'))
    rw [Table.lookup_set _ hr,Table.lookup_set _ hr]
    exact henrolled

/-- The same for a receiver whose call holds no token that counts, before and after. -/
theorem restage {call : Call T} (hfits : Receiver.Fits s {c with seen := seen,call := call})
    (htoken : Receiver.token s.version s.senders {c with seen := seen,call := call} =
      c.token s.version s.senders) (hobs : Observed s c {c with seen := seen,call := call}) :
    Ok (s.setReceiver r {c with seen := seen,call := call}) ∧
      Steps s (s.setReceiver r {c with seen := seen,call := call}) := by
  refine ⟨h.setReceiver hr rfl hfits ?_,Steps.setReceiver hr _ hobs s.waiters s.receivers⟩
  rw [Table.update_lookup _ hr _ htoken,Table.update_lookup _ hr _ rfl]
  exact h.enrolled

/-- Every call with a token was told, or it is told when the waiters are taken. -/
theorem told_all {id : SlotId} (hc : c.call = .waiting recv since (some id)) :
    ∃ waker ∈ (s.woken++s.waiters.wakeAll).drop c.mark, Reaches waker c.lastWaker := by
  rw [List.drop_append_of_le_length (h.rows r c hr).marked]
  cases htoken : c.token s.version s.senders with
  | none =>
    obtain ⟨waker,hw,hreach⟩ := (h.rows r c hr).told recv since id hc htoken
    exact ⟨waker,List.mem_append_left _ hw,hreach⟩
  | some k =>
    obtain ⟨waker,hget,hreach⟩ := h.enrolled.held r k ((Table.lookup_eq hr).trans htoken)
    rw [Table.lookup_eq hr] at hreach
    exact ⟨waker,List.mem_append_right _ (WakerSet.mem_wakeAll.mpr ⟨k,hget⟩),hreach⟩

theorem since_le (hc : c.call = .waiting recv since token) : since = c.seen ∧ since ≤ s.version := by
  have hcall := (h.rows r c hr).call
  rw [hc] at hcall
  exact ⟨hcall,hcall ▸ (h.rows r c hr).seen_le⟩

theorem stale_version (senders : ℕ) : c.token (s.version+1) senders = none := by
  rw [Receiver.token]
  split
  · next recv since token hc =>
    refine if_neg fun hand => ?_
    have hle := (h.since_le hr hc).2
    omega
  · rfl

end

theorem publish (h : Ok s) (hsenders : s.senders ≠ 0) (value : T) :
    (∃ t, s.publish value = .ok t ∧ Ok t ∧ Steps s t) ∨
      ∃ message, s.publish value = .error message ∧ s.Overflow message := by
  by_cases hlt : s.version < u64Max
  · refine Or.inl ⟨_,if_pos hlt,?_,⟨⟨List.prefix_append _ _,fun hs => absurd hs hsenders,
      fun r c hr => ⟨c,hr,.rests rfl rfl⟩⟩,rfl⟩⟩
    have hlength : s.published.length = s.version+1 := h.length
    refine ⟨?_,?_,h.senders,h.receivers,?_,?_⟩
    · show (s.published++[value]).length = s.version+1+1
      rw [List.length_append,hlength]
      rfl
    · show (s.published++[value])[s.version+1]? = some value
      rw [← hlength]
      exact List.getElem?_concat_length
    · intro r c hr
      have hrow := h.rows r c hr
      refine ⟨Nat.le_succ_of_le hrow.seen_le,hrow.call.grow value,fun recv since id hc _ => ?_,
        hrow.marked.trans (by simp)⟩
      show ∃ waker ∈ (s.woken++s.waiters.takeAll.1).drop c.mark, Reaches waker c.lastWaker
      rw [s.waiters.takeAll_eq]
      exact h.told_all hr hc
    · exact Enrolled.of_unclaimed (fun r c hr => h.stale_version hr _) s.waiters.get?_takeAll _
  · exact Or.inr ⟨_,if_neg hlt,Or.inl ⟨rfl,hlt⟩⟩

theorem recount (h : Ok s) (hs : s.senders ≠ 0) {senders : ℕ} {handles : List Bool}
    (hpos : senders ≠ 0) (hcount : senders = Table.total Bool.toNat handles) :
    Ok {s with senders := senders,handles := handles} := by
  have htoken : ∀ c : Receiver T W, c.token s.version senders = c.token s.version s.senders := by
    intro c
    simp only [Receiver.token,ne_eq,hpos,hs]
  refine ⟨h.length,h.current,hcount,h.receivers,?_,?_⟩
  · intro r c hr
    have hrow := h.rows r c hr
    exact ⟨hrow.seen_le,hrow.call,fun recv since id hc hnone =>
      hrow.told recv since id hc ((htoken c).symm.trans hnone),hrow.marked⟩
  · show Enrolled s.waiters (Table.lookup (Receiver.token s.version senders) s.observers) _
    rw [funext htoken]
    exact h.enrolled

theorem senders_pos (h : Ok s) (hi : s.handles[i]? = some true) : 0 < s.senders :=
  h.senders ▸ Table.le_total Bool.toNat hi

theorem cloneSender (h : Ok s) (hs : s.senders ≠ 0) :
    (∃ t, s.cloneSender = .ok t ∧ Ok t ∧ Steps s t) ∨
      ∃ message, s.cloneSender = .error message ∧ s.Overflow message := by
  by_cases hlt : s.senders < usizeMax
  · refine Or.inl ⟨_,if_pos hlt,h.recount hs (Nat.succ_ne_zero _) ?_,⟨⟨List.prefix_rfl,
      fun hz => absurd hz hs,fun r c hr => ⟨c,hr,.rests rfl rfl⟩⟩,rfl⟩⟩
    rw [Table.total_append,h.senders]
    rfl
  · exact Or.inr ⟨_,if_neg hlt,Or.inr (Or.inl ⟨rfl,hlt⟩)⟩

theorem dropSender (h : Ok s) (hi : s.handles[i]? = some true) :
    ∃ t, s.dropSender i = .ok t ∧ Ok t ∧ Steps s t := by
  have hpos := h.senders_pos hi
  have hsub : Checked.sub s.senders 1 = .ok (s.senders-1) := Checked.sub_ok hpos
  have hsenders : s.senders-1 = Table.total Bool.toNat (s.handles.set i false) := by
    have htotal := Table.total_set Bool.toNat hi false
    rw [← h.senders] at htotal
    exact (Nat.eq_sub_of_add_eq htotal).symm
  by_cases hlast : s.senders-1 = 0
  · refine ⟨{s with
      senders := 0,handles := s.handles.set i false,waiters := .new,
      woken := s.woken++s.waiters.wakeAll},?_,?_,?_⟩
    · simp only [State.dropSender,hsub,bind,Except.bind,hlast,ne_eq,not_true_eq_false,if_false]
    · refine ⟨h.length,h.current,hlast ▸ hsenders,h.receivers,?_,?_⟩
      · intro r c hr
        have hrow := h.rows r c hr
        exact ⟨hrow.seen_le,hrow.call,fun recv since id hc _ => h.told_all hr hc,
          hrow.marked.trans (by simp)⟩
      · refine Enrolled.of_unclaimed (fun r c hr => ?_) (fun _ => rfl) _
        rw [Receiver.token]
        split
        · exact if_neg fun hand => hand.2 rfl
        · rfl
    · exact ⟨⟨List.prefix_rfl,fun hz => absurd hz hpos.ne',
        fun r c hr => ⟨c,hr,.rests rfl rfl⟩⟩,rfl⟩
  · refine ⟨{s with senders := s.senders-1,handles := s.handles.set i false},?_,
      h.recount hpos.ne' hlast hsenders,⟨⟨List.prefix_rfl,fun hz => absurd hz hpos.ne',
        fun r c hr => ⟨c,hr,.rests rfl rfl⟩⟩,rfl⟩⟩
    simp only [State.dropSender,hsub,bind,Except.bind,hlast,ne_eq,not_false_eq_true,if_true]

theorem addReceiver (h : Ok s) (hseen : seen ≤ s.version) :
    (∃ t, s.addReceiver seen = .ok t ∧ Ok t ∧ Steps s t) ∨
      ∃ message, s.addReceiver seen = .error message ∧ s.Overflow message := by
  by_cases hlt : s.receivers < usizeMax
  · refine Or.inl ⟨_,if_pos hlt,⟨h.length,h.current,h.senders,?_,?_,?_⟩,
      .of_observers rfl rfl rfl rfl rfl fun r c hr =>
        ⟨c,Table.getElem?_push_old hr _,.rests rfl rfl⟩⟩
    · show s.receivers+1 = Table.total Receiver.counts (s.observers++[_])
      rw [Table.total_append,h.receivers]
      rfl
    · intro r c hr
      rcases Table.getElem?_push hr with hr | ⟨-,rfl⟩
      · exact (h.rows r c hr).congr rfl
      · exact ⟨hseen,trivial,nofun,Nat.zero_le _⟩
    · show Enrolled s.waiters (Table.lookup (Receiver.token s.version s.senders) (s.observers++[_]))
        (Table.lookup Receiver.lastWaker (s.observers++[_]))
      rw [Table.lookup_push _ rfl,Table.lookup_push _ rfl]
      exact h.enrolled
  · exact Or.inr ⟨_,if_neg hlt,Or.inr (Or.inr ⟨rfl,hlt⟩)⟩

section

variable (h : Ok s) (hr : s.observers[r]? = some c)
include h hr

theorem dropReceiver (hc : c.free = true) : ∃ t, s.dropReceiver r c = .ok t ∧ Ok t ∧ Steps s t := by
  obtain ⟨halive,last,hcall⟩ := c.free_cases hc
  have hone : c.counts = 1 := by rw [Receiver.counts,if_pos halive]
  have hpos : 1 ≤ s.receivers := h.receivers ▸ hone ▸ Table.le_total Receiver.counts hr
  refine ⟨{s.setReceiver r {c with alive := false} with receivers := s.receivers-1},?_,?_,?_⟩
  · simp only [State.dropReceiver,Checked.sub_ok hpos,bind,Except.bind]
  · have htotal := Table.total_set Receiver.counts hr {c with alive := false}
    rw [hone,← h.receivers] at htotal
    refine ⟨h.length,h.current,h.senders,(Nat.eq_sub_of_add_eq htotal).symm,?_,?_⟩
    · intro q d hd
      have hrow := h.rows r c hr
      rcases Table.getElem?_set_cases hd with ⟨-,rfl⟩ | ⟨-,hd⟩
      · exact ⟨hrow.seen_le,hrow.call,hrow.told,hrow.marked⟩
      · exact (h.rows q d hd).congr rfl
    · show Enrolled s.waiters
        (Table.lookup (Receiver.token s.version s.senders) (s.observers.set r {c with alive := false}))
        (Table.lookup Receiver.lastWaker (s.observers.set r {c with alive := false}))
      rw [Table.lookup_set_same hr (by rfl),Table.lookup_set_same hr (by rfl)]
      exact h.enrolled
  · exact Steps.setReceiver hr {c with alive := false} (.rests rfl rfl) s.waiters _

theorem start (hc : c.free = true) (recv : Bool) :
    Ok (s.setReceiver r {c with call := .waiting recv c.seen none}) ∧
      Steps s (s.setReceiver r {c with call := .waiting recv c.seen none}) := by
  obtain ⟨-,last,hcall⟩ := c.free_cases hc
  refine h.restage hr ⟨(h.rows r c hr).seen_le,rfl,nofun,(h.rows r c hr).marked⟩ ?_
    (.starts recv rfl rfl)
  simp [Receiver.token,hcall]

/-- A `Change` answers exactly if the version has moved or no sender is left, and else it
registers. -/
theorem pollChange (hc : c.call = .waiting recv since token) (waker : W) :
    ∃ t, s.pollChange r c recv since token waker = .ok t ∧ Ok t ∧ Steps s t := by
  have hrow := h.rows r c hr
  obtain ⟨rfl,-⟩ := h.since_le hr hc
  by_cases hnew : s.version ≠ c.seen
  · have hlt : c.seen < s.version := lt_of_le_of_ne hrow.seen_le (Ne.symm hnew)
    have hstale : c.token s.version s.senders = none := by
      simp only [Receiver.token,hc]
      exact if_neg fun hand => hnew hand.1.symm
    cases recv with
    | true =>
      exact ⟨s.setReceiver r {c with call := .reading},if_pos hnew,
        h.restage hr ⟨hrow.seen_le,hlt,nofun,hrow.marked⟩ hstale.symm
          (.finds _ _ hc rfl hlt rfl)⟩
    | false =>
      exact ⟨s.setReceiver r {c with seen := s.version,call := .idle (some .changed)},if_pos hnew,
        h.restage hr ⟨le_rfl,trivial,nofun,hrow.marked⟩ hstale.symm
          (.changes rfl hlt rfl)⟩
  · have hsame : c.seen = s.version := (not_not.mp hnew).symm
    by_cases hzero : s.senders = 0
    · refine ⟨s.setReceiver r {c with call := .idle (some (.failed .disconnected))},?_,
        h.restage hr ⟨hrow.seen_le,trivial,nofun,hrow.marked⟩ ?_
          (.fails rfl hzero hsame rfl)⟩
      · rw [State.pollChange,if_neg hnew,if_pos hzero]
      · simp only [Receiver.token,hc]
        exact (if_neg fun hand => hand.2 hzero).symm
    · have htoken : ∀ token : Option SlotId,
          (if c.seen = s.version ∧ s.senders ≠ 0 then token else none) = token :=
        fun token => if_pos ⟨hsame,hzero⟩
      obtain ⟨id,w,hreg,henrolled⟩ := h.enrolled.register r waker
      rw [Table.lookup_eq hr,Receiver.token,hc] at hreg
      simp only [htoken] at hreg
      have hwaits : Observed s c
          {c with call := .waiting recv c.seen (some id),lastWaker := some waker,mark := s.woken.length} :=
        .waits recv _ id rfl rfl
      refine ⟨{s.setReceiver r {c with
          call := .waiting recv c.seen (some id),lastWaker := some waker,mark := s.woken.length}
        with waiters := w},?_,h.setReceiver hr rfl ⟨hrow.seen_le,rfl,?_,le_rfl⟩ ?_,
        Steps.setReceiver hr _ hwaits w s.receivers⟩
      · simp only [State.pollChange,if_neg hnew,if_neg hzero,hreg,bind,Except.bind]
      · intro recv' since' id' _ hnone
        simp only [Receiver.token,htoken] at hnone
        cases hnone
      · simp only [Receiver.token,htoken]
        exact henrolled

theorem readValue (hc : c.call = .reading) (clonePanics : Bool) :
    Ok (s.readValue r c clonePanics) ∧ Steps s (s.readValue r c clonePanics) := by
  have hrow := h.rows r c hr
  have hlt := hrow.call
  rw [hc] at hlt
  have hnone : c.token s.version s.senders = none := by simp only [Receiver.token,hc]
  cases clonePanics with
  | true =>
    exact h.restage hr ⟨hrow.seen_le,trivial,nofun,hrow.marked⟩ hnone.symm
      (.unwinds rfl rfl)
  | false =>
    exact h.restage hr ⟨le_rfl,h.current,nofun,hrow.marked⟩ hnone.symm
      (.receives rfl hlt rfl)

theorem dropChange (hc : c.call = .waiting recv since token) :
    ∃ t, s.dropChange r c since token = .ok t ∧ Ok t ∧ Steps s t := by
  have hrow := h.rows r c hr
  have hfits : Receiver.Fits s {c with call := .idle (some .cancelled)} :=
    ⟨hrow.seen_le,trivial,nofun,hrow.marked⟩
  have hcancels : Observed s c {c with call := .idle (some .cancelled)} := .cancels rfl rfl
  cases htoken : c.token s.version s.senders with
  | none =>
    refine ⟨s.setReceiver r {c with call := .idle (some .cancelled)},?_,
      h.restage hr hfits htoken.symm hcancels⟩
    by_cases hnone : token = none
    · rw [State.dropChange,if_pos hnone]
    · simp only [Receiver.token,hc] at htoken
      have hold : s.version ≠ since ∨ s.senders = 0 := by
        by_contra hcur
        obtain ⟨hv,hs⟩ := not_or.mp hcur
        rw [if_pos ⟨(not_not.mp hv).symm,hs⟩] at htoken
        exact hnone htoken
      rw [State.dropChange,if_neg hnone,if_pos hold]
  | some id =>
    simp only [Receiver.token,hc] at htoken
    obtain ⟨⟨hsince,hs⟩,rfl⟩ := Option.ite_none_right_eq_some.mp htoken
    have hslot : Table.lookup (Receiver.token s.version s.senders) s.observers r = some id := by
      rw [Table.lookup_eq hr]
      simp only [Receiver.token,hc]
      exact if_pos ⟨hsince,hs⟩
    obtain ⟨w,hun,-,henrolled⟩ := h.enrolled.unregister hslot
    refine ⟨{s.setReceiver r {c with call := .idle (some .cancelled)} with waiters := w},?_,
      h.setReceiver hr rfl hfits ?_,Steps.setReceiver hr _ hcancels w s.receivers⟩
    · have hcur : ¬ (s.version ≠ since ∨ s.senders = 0) :=
        not_or.mpr ⟨not_not.mpr hsince.symm,hs⟩
      simp only [State.dropChange,reduceCtorEq,if_false,if_neg hcur,hun,bind,Except.bind]
    · rw [Table.update_lookup Receiver.lastWaker hr _ rfl]
      exact henrolled

end

/-- A step goes through, or a counter is at its maximum. -/
def Goes (s : State T W) (x : Except String (State T W)) : Prop :=
  (∃ t, x = .ok t ∧ Ok t ∧ Steps s t) ∨ ∃ message, x = .error message ∧ s.Overflow message

theorem send (h : Ok s) (hs : s.senders ≠ 0) (value : T) : Goes s ((s.send value).map Prod.snd) := by
  by_cases hzero : s.receivers = 0
  · rw [State.send,if_pos hzero]
    exact Or.inl ⟨s,rfl,h,.refl s⟩
  · rw [State.send,if_neg hzero]
    rcases h.publish hs value with ⟨t,ht,hok,hsteps⟩ | ⟨message,hm,hover⟩
    · rw [ht]
      exact Or.inl ⟨t,rfl,hok,hsteps⟩
    · rw [hm]
      exact Or.inr ⟨message,rfl,hover⟩

theorem sendReplace (h : Ok s) (hs : s.senders ≠ 0) (value : T) :
    Goes s ((s.sendReplace value).map Prod.snd) := by
  rw [State.sendReplace]
  rcases h.publish hs value with ⟨t,ht,hok,hsteps⟩ | ⟨message,hm,hover⟩
  · rw [ht]
    exact Or.inl ⟨t,rfl,hok,hsteps⟩
  · rw [hm]
    exact Or.inr ⟨message,rfl,hover⟩

theorem bySender (h : Ok s) {y : Except String (State T W)} (hx : s.bySender i x = some y) :
    y = x ∧ s.handles[i]? = some true ∧ s.senders ≠ 0 := by
  obtain ⟨hi,⟨⟩⟩ := Option.ite_none_right_eq_some.mp hx
  exact ⟨rfl,hi,(h.senders_pos hi).ne'⟩

theorem act (h : Ok s) {a : Action T W} (hx : s.act a = some x) : Goes s x := by
  have hreceiver : ∀ {r : ℕ} {y : Receiver T W → Except String (State T W)},
      s.byReceiver r y = some x → ∃ c, s.observers[r]? = some c ∧ c.free = true ∧ x = y c := by
    intro r y hy
    obtain ⟨c,hr,hy⟩ := Option.bind_eq_some_iff.mp hy
    obtain ⟨hfree,⟨⟩⟩ := Option.ite_none_right_eq_some.mp hy
    exact ⟨c,hr,hfree,rfl⟩
  cases a with
  | send i value =>
    obtain ⟨rfl,-,hs⟩ := h.bySender hx
    exact h.send hs value
  | sendReplace i value =>
    obtain ⟨rfl,-,hs⟩ := h.bySender hx
    exact h.sendReplace hs value
  | subscribe i =>
    obtain ⟨rfl,-,hs⟩ := h.bySender hx
    exact h.addReceiver le_rfl
  | cloneSender i =>
    obtain ⟨rfl,-,hs⟩ := h.bySender hx
    exact h.cloneSender hs
  | dropSender i =>
    obtain ⟨rfl,hi,-⟩ := h.bySender hx
    exact Or.inl (h.dropSender hi)
  | cloneReceiver r =>
    obtain ⟨c,hr,-,rfl⟩ := hreceiver hx
    exact h.addReceiver (h.rows r c hr).seen_le
  | dropReceiver r =>
    obtain ⟨c,hr,hfree,rfl⟩ := hreceiver hx
    exact Or.inl (h.dropReceiver hr hfree)
  | get r =>
    obtain ⟨c,hr,hfree,rfl⟩ := hreceiver hx
    refine Or.inl ⟨_,rfl,⟨h.length,h.current,h.senders,h.receivers,?_,h.enrolled⟩,?_⟩
    · exact fun q d hd => (h.rows q d hd).congr rfl
    · exact .of_observers rfl rfl rfl rfl rfl fun _ d hd => ⟨d,hd,.rests rfl rfl⟩
  | hasChanged r =>
    obtain ⟨c,hr,hfree,rfl⟩ := hreceiver hx
    exact Or.inl ⟨s,rfl,h,.refl s⟩
  | changed r =>
    obtain ⟨c,hr,hfree,rfl⟩ := hreceiver hx
    exact Or.inl ⟨_,rfl,h.start hr hfree false⟩
  | recv r =>
    obtain ⟨c,hr,hfree,rfl⟩ := hreceiver hx
    exact Or.inl ⟨_,rfl,h.start hr hfree true⟩
  | poll r waker =>
    obtain ⟨c,hr,hx⟩ := Option.bind_eq_some_iff.mp hx
    rw [State.poll] at hx
    split at hx
    · next recv since token hc =>
      cases hx
      exact Or.inl (h.pollChange hr hc waker)
    · cases hx
  | read r clonePanics =>
    obtain ⟨c,hr,hx⟩ := Option.bind_eq_some_iff.mp hx
    rw [State.read] at hx
    split at hx
    · next hc =>
      cases hx
      exact Or.inl ⟨_,rfl,h.readValue hr hc clonePanics⟩
    · cases hx
  | cancel r =>
    obtain ⟨c,hr,hx⟩ := Option.bind_eq_some_iff.mp hx
    rw [State.cancel] at hx
    split at hx
    · next recv since token hc =>
      cases hx
      exact Or.inl (h.dropChange hr hc)
    · cases hx

end Ok

structure Inv [Wake W] (s : State T W) : Prop where
  ok : Ok s
  sound : ∀ message, s.panicked = some message → s.Overflow message

theorem Inv.next [Wake W] (h : Inv s) {a : Action T W} (hn : s.next a = some t) :
    Inv t ∧ Moves s t := by
  obtain ⟨hcalm,x,hx,rfl⟩ := Transition.step_eq_some hn
  rcases h.ok.act hx with ⟨t,rfl,hok,hsteps⟩ | ⟨message,rfl,hover⟩
  · refine ⟨⟨hok,fun message hm => ?_⟩,hsteps.toMoves⟩
    have hcalm : t.panicked = none := hsteps.calm.trans hcalm
    exact absurd (hm.symm.trans hcalm) (Option.some_ne_none _)
  · have hok := h.ok
    refine ⟨⟨⟨hok.length,hok.current,hok.senders,hok.receivers,fun r c hr => ?_,hok.enrolled⟩,?_⟩,
      ⟨List.prefix_rfl,fun hs => ⟨hs,rfl,rfl⟩,fun r c hr => ⟨c,hr,.rests rfl rfl⟩⟩⟩
    · exact (hok.rows r c hr).congr rfl
    · rintro _ ⟨⟩
      exact hover

theorem reachable_inv [Wake W] (h : (machine T W).Reachable s) : Inv s := by
  refine (machine T W).invariant Inv ?_ (fun s a t hs hn => (hs.next hn).1) h
  rintro s ⟨initial,rfl⟩
  exact ⟨.channel initial,fun message hm => by cases hm⟩

structure State.Contract [Wake W] (s : State T W) : Prop where
  steps : ∀ a t, s.next a = some t → Moves s t
  /-- The current value is that of the current version. -/
  current : s.published.length = s.version+1 ∧ s.published[s.version]? = some s.value
  seen_le : ∀ (r : ℕ) c, s.observers[r]? = some c → c.seen ≤ s.version
  /-- The value that a `recv` returned is that of the version it recorded. -/
  received : ∀ (r : ℕ) c value, s.observers[r]? = some c → c.call = .idle (some (.received value)) →
    s.published[c.seen]? = some value
  hasChanged : ∀ (r : ℕ) c, s.observers[r]? = some c →
    (s.hasChanged c = .error .disconnected ↔ s.senders = 0 ∧ c.seen = s.version) ∧
      (s.hasChanged c = .ok true ↔ c.seen < s.version)
  senders : s.senders = Table.total Bool.toNat s.handles
  receivers : s.receivers = Table.total Receiver.counts s.observers
  /-- Without a receiver the value comes back. -/
  refused : s.receivers = 0 → ∀ value, s.send value = .ok (some value,s)
  /-- The tokens that count are the occupied slots, each with its latest waker. -/
  enrolled : Enrolled s.waiters (Table.lookup (Receiver.token s.version s.senders) s.observers)
    (Table.lookup Receiver.lastWaker s.observers)
  /-- A call whose token does not count any more was woken after its poll. -/
  told : ∀ (r : ℕ) c recv since id, s.observers[r]? = some c →
    c.call = .waiting recv since (some id) → since ≠ s.version ∨ s.senders = 0 →
    ∃ waker ∈ s.woken.drop c.mark, Reaches waker c.lastWaker
  publishes : ∀ i value, s.panicked = none → s.handles[i]? = some true → s.version < u64Max →
    (s.receivers ≠ 0 → ∃ t, s.next (.send i value) = some t ∧ t.published = s.published++[value]) ∧
      ∃ t, s.next (.sendReplace i value) = some t ∧ t.published = s.published++[value]
  gets : ∀ r t, s.next (.get r) = some t → t.answers = s.answers++[s.value]
  sound : ∀ message, s.panicked = some message → s.Overflow message

theorem watch_observation (T W : Type) [Wake W] (s : State T W) (h : (machine T W).Reachable s) :
    s.Contract := by
  have hinv := reachable_inv h
  have hok := hinv.ok
  refine ⟨fun a t hn => (hinv.next hn).2,⟨hok.length,hok.current⟩,fun r c hr => (hok.rows r c hr).seen_le,
    ?_,?_,hok.senders,hok.receivers,fun hzero value => if_pos hzero,hok.enrolled,?_,?_,?_,hinv.sound⟩
  · intro r c value hr hc
    have hcall := (hok.rows r c hr).call
    rwa [hc] at hcall
  · intro r c hr
    have hle := (hok.rows r c hr).seen_le
    rw [State.hasChanged]
    split
    · next hnew => exact ⟨iff_of_false (by simp) fun hand => hnew hand.2.symm,iff_of_true rfl (by omega)⟩
    · next hold =>
      have hseen := not_not.mp hold
      split
      · next hzero => exact ⟨iff_of_true rfl ⟨hzero,hseen.symm⟩,iff_of_false (by simp) (by omega)⟩
      · next hpos => exact ⟨iff_of_false (by simp) fun hand => hpos hand.1,iff_of_false (by simp) (by omega)⟩
  · intro r c recv since id hr hc hold
    refine (hok.rows r c hr).told recv since id hc ?_
    simp only [Receiver.token,hc]
    refine if_neg fun hand => ?_
    rcases hold with hold | hold
    · exact hold hand.1
    · exact hand.2 hold
  · intro i value hcalm hi hlt
    obtain ⟨t,ht,hpublished⟩ : ∃ t, s.publish value = .ok t ∧ t.published = s.published++[value] :=
      ⟨_,if_pos hlt,rfl⟩
    refine ⟨fun hr => ⟨t,Transition.step_of_act hcalm ?_,hpublished⟩,
      t,Transition.step_of_act hcalm ?_,hpublished⟩
    · simp [State.act,State.bySender,hi,State.send,hr,ht,bind,Except.bind,Except.map]
    · simp [State.act,State.bySender,hi,State.sendReplace,ht,bind,Except.bind,Except.map]
  · intro r t hn
    obtain ⟨-,x,hx,rfl⟩ := Transition.step_eq_some hn
    obtain ⟨c,-,hx⟩ := Option.bind_eq_some_iff.mp hx
    obtain ⟨-,⟨⟩⟩ := Option.ite_none_right_eq_some.mp hx
    rfl

/-- The second value is published between the answer of the `Change` of a `recv` and its
read, and the sender is gone before the next `recv`. -/
def coalescedRun : List (Action ℕ ℕ) :=
  [.subscribe 0,.recv 0,.poll 0 7,.changed 1,.poll 1 8,.send 0 10,.poll 0 7,.send 0 11,.read 0 false,
   .poll 1 8,.dropSender 0,.recv 1,.poll 1 8]

theorem watch_observation_coalescedRun :
    ∃ s, (machine ℕ ℕ).exec (channel ℕ 5) coalescedRun = some s ∧ s.Contract ∧
      s.published = [5,10,11] ∧ s.woken = [7,8] ∧ s.observers.map (fun c => (c.seen,c.call)) =
        [(2,.idle (some (.received 11))),(2,.idle (some (.failed .disconnected)))] := by
  have hrun : ((machine ℕ ℕ).exec (channel ℕ 5) coalescedRun).map (fun s => (s.published,s.woken,
      s.observers.map fun c => (c.seen,c.call))) = some ([5,10,11],[7,8],
        [(2,.idle (some (.received 11))),(2,.idle (some (.failed .disconnected)))]) := by
    decide +kernel
  obtain ⟨s,hs,hend⟩ := Option.map_eq_some_iff.mp hrun
  simp only [Prod.mk.injEq] at hend
  exact ⟨s,hs,watch_observation ℕ ℕ s ((machine ℕ ℕ).reachable_of_exec ⟨5,rfl⟩ hs),hend⟩

end Watch
end Asyncband
