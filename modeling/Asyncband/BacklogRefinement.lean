import Asyncband.Backlog
import Asyncband.Transition
import Mathlib.Order.ConditionallyCompleteLattice.Basic
import Mathlib.Order.Lattice.Nat

/-! The backlog refines a list of all messages with one cursor per receiver.
`Naive` is that list; it never forgets a message and knows nothing of slots or
counts. Every sequence of calls gets the same answers from both. -/
namespace Asyncband
namespace Backlog

inductive Command (T : Type)
  | publish (msg : T)
  | publishRetained (msg : T)
  | publishDiscarded (msg : T)
  | subscribe
  | removeReceiver (key : SlotId)
  | receive (key : SlotId)
  deriving DecidableEq

inductive Response (T : Type)
  | published (unretained : Option T)
  | done
  | subscribed (key : SlotId)
  | removed (reclaimed : List T) (len : ℕ)
  /-- The message with the number of messages that were reclaimed. -/
  | received (r : Option (T × ℕ))
  | panicked (message : String)
  deriving DecidableEq

variable {T : Type} {b b' : Backlog T} {msg : T} {c : ℕ} {command : Command T}

def Response.key : Response T → SlotId
  | .subscribed key => key
  | _ => 0

/-- The calls that the channels make. -/
def callable (b : Backlog T) : Command T → Bool
  | .publish _ => decide (b.tail < u64Max)
  | .publishRetained _ => b.hasReceivers && decide (b.tail < u64Max)
  | .publishDiscarded _ => !b.hasReceivers && decide (b.tail < u64Max)
  | .subscribe => true
  | .removeReceiver key | .receive key => (b.cursor key).isSome

def call (b : Backlog T) : Command T → Response T × Backlog T
  | .publish msg =>
    match b.publish msg with
    | .ok (unretained,b') => (.published unretained,b')
    | .error message => (.panicked message,b)
  | .publishRetained msg =>
    match b.publishRetained msg with
    | .ok b' => (.done,b')
    | .error message => (.panicked message,b)
  | .publishDiscarded _ =>
    match b.publishDiscarded with
    | .ok b' => (.done,b')
    | .error message => (.panicked message,b)
  | .subscribe => (.subscribed b.subscribe.1,b.subscribe.2)
  | .removeReceiver key =>
    match b.removeReceiver key with
    | .ok (r,b') => (.removed r.messages r.len,b')
    | .error message => (.panicked message,b)
  | .receive key =>
    match b.receive key with
    | .ok (r,b') => (.received (r.map fun r => (r.msg,r.reclaimed.toNat)),b')
    | .error message => (.panicked message,b)

structure Session (T : Type) where
  backlog : Backlog T
  trace : List (Command T × Response T)

def Session.next (s : Session T) (command : Command T) : Option (Session T) :=
  if callable s.backlog command then
    let r := call s.backlog command
    some ⟨r.2,s.trace++[(command,r.1)]⟩
  else none

def machine (T : Type) : Transition.Machine (Session T) (Command T) where
  init s := s = ⟨elastic,[]⟩ ∨ s = ⟨fixed,[]⟩
  next := Session.next

/-- Every message ever published, and the cursors. -/
structure Naive (T : Type) where
  messages : List T
  cursors : SlotId → Option ℕ

namespace Naive

def empty : Naive T := ⟨[],fun _ => none⟩

def push (n : Naive T) (msg : T) : Naive T := {n with messages := n.messages++[msg]}

def setCursor (n : Naive T) (key : SlotId) (c : Option ℕ) : Naive T :=
  {n with cursors := Function.update n.cursors key c}

def hasReceivers (n : Naive T) : Prop := ∃ key c, n.cursors key = some c

open Classical in
/-- The smallest cursor, or the end without receivers. -/
noncomputable def start (n : Naive T) : ℕ :=
  if n.hasReceivers then sInf {c | ∃ key, n.cursors key = some c} else n.messages.length

noncomputable def retained (n : Naive T) : ℕ := n.messages.length-n.start

open Classical in
/-- The answer to a call; `fresh` is the name given to a new subscription. -/
noncomputable def step (n : Naive T) (fresh : SlotId) : Command T → Response T × Naive T
  | .publish msg => (.published (if n.hasReceivers then none else some msg),n.push msg)
  | .publishRetained msg | .publishDiscarded msg => (.done,n.push msg)
  | .subscribe => (.subscribed fresh,n.setCursor fresh (some n.messages.length))
  | .removeReceiver key =>
    let n' := n.setCursor key none
    let len := n.retained-n'.retained
    (.removed ((n.messages.drop n.start).take len) len,n')
  | .receive key =>
    match n.cursors key with
    | none => (.received none,n)
    | some c =>
      match n.messages[c]? with
      | none => (.received none,n)
      | some msg =>
        let n' := n.setCursor key (some (c+1))
        (.received (some (msg,n.retained-n'.retained)),n')

/-- The answers to a sequence of calls, with subscriptions named as in the trace. -/
noncomputable def replay (n : Naive T) : List (Command T × Response T) → List (Response T) × Naive T
  | [] => ([],n)
  | (command,response)::trace =>
    let r := n.step response.key command
    let rest := replay r.2 trace
    (r.1::rest.1,rest.2)

theorem replay_append (n : Naive T) (trace trace' : List (Command T × Response T)) :
    n.replay (trace++trace') =
      ((n.replay trace).1++((n.replay trace).2.replay trace').1,
        ((n.replay trace).2.replay trace').2) := by
  induction trace generalizing n with
  | nil => rfl
  | cons entry trace ih => simp [replay,ih]

end Naive

theorem Naive.step_ne_panicked (n : Naive T) (fresh : SlotId) (command : Command T)
    (message : String) : (n.step fresh command).1 ≠ .panicked message := by
  cases command with
  | receive key =>
    simp only [step]
    split
    · simp
    · split <;> simp
  | _ => simp [step]

theorem Naive.replay_ne_panicked (n : Naive T) (trace : List (Command T × Response T))
    (message : String) : .panicked message ∉ (n.replay trace).1 := by
  induction trace generalizing n with
  | nil => simp [replay]
  | cons entry trace ih =>
    simp only [replay,List.mem_cons,not_or]
    exact ⟨(n.step_ne_panicked entry.2.key entry.1 message).symm,ih _⟩

/-- The backlog holds what the list has from the head on. -/
structure Refines (b : Backlog T) (n : Naive T) : Prop where
  tail : b.tail = n.messages.length
  messages : b.messages = n.messages.drop b.head
  cursors : b.cursor = n.cursors

variable {n : Naive T} {s s' : Session T}

theorem Refines.hasReceivers (h : Refines b n) : n.hasReceivers ↔ b.hasReceivers = true := by
  rw [b.hasReceivers_iff,h.cursors]
  rfl

theorem Refines.start (h : Refines b n) : n.start = b.head := by
  unfold Naive.start
  split
  · next hr =>
    obtain ⟨key,hkey⟩ := b.head_attained (h.hasReceivers.mp hr)
    have hmem : b.head ∈ {c | ∃ key, n.cursors key = some c} := ⟨key,by rw [← h.cursors]; exact hkey⟩
    apply Nat.le_antisymm (Nat.sInf_le hmem)
    · apply le_csInf ⟨_,hmem⟩
      rintro c ⟨key',hkey'⟩
      rw [← h.cursors] at hkey'
      exact (cursor_bounds hkey').1
  · next hr =>
    have hfalse : b.hasReceivers = false := by
      simpa using mt h.hasReceivers.mpr hr
    have hlength := b.head_add_retained
    rw [b.retained_eq_zero hfalse] at hlength
    rw [← h.tail]
    omega

theorem Refines.retained (h : Refines b n) : n.retained = b.retained := by
  have hlength := b.head_add_retained
  unfold Naive.retained
  rw [h.start,← h.tail]
  omega

theorem elastic_refines : Refines (elastic : Backlog T) .empty := ⟨rfl,rfl,rfl⟩

theorem fixed_refines : Refines (fixed : Backlog T) .empty := ⟨rfl,rfl,rfl⟩

theorem Refines.push (h : Refines b n) (htail : b'.tail = b.tail+1) (hhead : b'.head = b.head)
    (hcursor : b'.cursor = b.cursor) (hmessages : b'.messages = b.messages++[msg]) :
    Refines b' (n.push msg) where
  tail := by simp [htail,h.tail,Naive.push]
  messages := by
    have hle : b.head ≤ n.messages.length := by
      have hlength := b.head_add_retained
      rw [h.tail] at hlength
      omega
    rw [hmessages,hhead,h.messages,Naive.push,List.drop_append_of_le_length hle]
  cursors := hcursor.trans h.cursors

theorem Refines.discard (h : Refines b n) (htail : b'.tail = b.tail+1) (hhead : b'.head = b.tail+1)
    (hcursor : b'.cursor = b.cursor) (hmessages : b'.messages = []) : Refines b' (n.push msg) where
  tail := by simp [htail,h.tail,Naive.push]
  messages := by
    rw [hmessages,hhead,h.tail,Naive.push]
    simp
  cursors := hcursor.trans h.cursors

theorem Refines.remove (h : Refines b n) {key : SlotId} {r : Reclaimed T}
    (hcursor : b'.cursor = Function.update b.cursor key none) (htail : b'.tail = b.tail)
    (hhead : b'.head = b.head+r.len) (hmessages : b.messages = r.messages++b'.messages) :
    Refines b' (n.setCursor key none) where
  tail := htail.trans h.tail
  messages := by
    have hlen : r.messages.length = r.len := by simp [Reclaimed.messages,Reclaimed.len]
    show b'.messages = n.messages.drop b'.head
    rw [hhead,← List.drop_drop,← h.messages,hmessages,← hlen,List.drop_left]
  cursors := by rw [hcursor,h.cursors]; rfl

theorem Refines.receive (h : Refines b n) {key : SlotId} {r : Received T}
    (hcursor : b'.cursor = Function.update b.cursor key (some (c+1))) (htail : b'.tail = b.tail)
    (hhead : b'.head = b.head+r.reclaimed.toNat)
    (hmessages : b'.messages = b.messages.drop r.reclaimed.toNat) :
    Refines b' (n.setCursor key (some (c+1))) where
  tail := htail.trans h.tail
  messages := by
    show b'.messages = n.messages.drop b'.head
    rw [hmessages,hhead,h.messages,List.drop_drop]
  cursors := by rw [hcursor,h.cursors]; rfl

theorem call_refines (h : Refines b n) (hcall : callable b command = true) :
    (n.step (call b command).1.key command).1 = (call b command).1 ∧
      Refines (call b command).2 (n.step (call b command).1.key command).2 := by
  have hretained := h.retained
  have hlength := b.head_add_retained
  cases command with
  | publish msg =>
    simp only [callable,decide_eq_true_eq] at hcall
    cases hr : b.hasReceivers with
    | true =>
      obtain ⟨b',hrun,htail,hhead,hcursor,hmessages⟩ := b.publishRetained_spec hr hcall msg
      have hn : n.hasReceivers := h.hasReceivers.mpr hr
      simp only [call,publish,hr,if_true,hrun,Except.map,Naive.step,hn]
      exact ⟨trivial,h.push htail hhead hcursor hmessages⟩
    | false =>
      obtain ⟨b',hrun,htail,hhead,hcursor,hmessages⟩ := b.publishDiscarded_spec hr hcall
      have hn : ¬n.hasReceivers := by
        rw [h.hasReceivers,hr]
        exact Bool.false_ne_true
      simp only [call,publish,hr,hrun,Except.map,Naive.step,hn]
      exact ⟨rfl,h.discard htail hhead hcursor hmessages⟩
  | publishRetained msg =>
    simp only [callable,Bool.and_eq_true,decide_eq_true_eq] at hcall
    obtain ⟨b',hrun,htail,hhead,hcursor,hmessages⟩ := b.publishRetained_spec hcall.1 hcall.2 msg
    simp only [call,hrun,Naive.step]
    exact ⟨trivial,h.push htail hhead hcursor hmessages⟩
  | publishDiscarded msg =>
    simp only [callable,Bool.and_eq_true,Bool.not_eq_true',decide_eq_true_eq] at hcall
    obtain ⟨b',hrun,htail,hhead,hcursor,hmessages⟩ := b.publishDiscarded_spec hcall.1 hcall.2
    simp only [call,hrun,Naive.step]
    exact ⟨trivial,h.discard htail hhead hcursor hmessages⟩
  | subscribe =>
    obtain ⟨-,hcursor,hmessages,hhead,htail⟩ := b.subscribe_spec
    refine ⟨rfl,htail.trans h.tail,?_,?_⟩
    · show b.subscribe.2.messages = n.messages.drop b.subscribe.2.head
      rw [hmessages,hhead,h.messages]
    · show b.subscribe.2.cursor = Function.update n.cursors b.subscribe.1 (some n.messages.length)
      rw [hcursor,h.cursors,h.tail]
  | removeReceiver key =>
    obtain ⟨c,hc⟩ := Option.isSome_iff_exists.mp hcall
    obtain ⟨r,b',hrun,hcursor,htail,hhead,hmessages⟩ := b.removeReceiver_spec hc
    have hnew := h.remove hcursor htail hhead hmessages
    have hretained' := hnew.retained
    have hlength' := b'.head_add_retained
    have hlen : n.retained-(n.setCursor key none).retained = r.len := by omega
    simp only [call,hrun,Naive.step,hlen]
    refine ⟨?_,hnew⟩
    have hr : r.messages.length = r.len := by simp [Reclaimed.messages,Reclaimed.len]
    rw [h.start,← h.messages,hmessages,← hr,List.take_left]
  | receive key =>
    obtain ⟨c,hc⟩ := Option.isSome_iff_exists.mp hcall
    have hn : n.cursors key = some c := by rw [← h.cursors]; exact hc
    have hbounds := cursor_bounds hc
    rcases Nat.lt_or_ge c b.tail with hlt | hge
    · obtain ⟨r,b',hrun,hcursor,htail,hhead,hmsg,hmessages⟩ := b.receive_spec hc hlt
      have hnew := h.receive hcursor htail hhead hmessages
      have hretained' := hnew.retained
      have hlength' := b'.head_add_retained
      have hread : n.messages[c]? = some r.msg := by
        rw [h.messages,List.getElem?_drop,Nat.add_sub_cancel' hbounds.1] at hmsg
        exact hmsg
      have hlen : n.retained-(n.setCursor key (some (c+1))).retained = r.reclaimed.toNat := by omega
      simp only [call,hrun,Naive.step,hn,hread,hlen]
      exact ⟨rfl,hnew⟩
    · have hct : c = b.tail := by omega
      rw [hct] at hc
      have hread : n.messages[c]? = none := by
        rw [hct,h.tail]
        simp
      simp only [call,b.receive_none hc,Naive.step,hn,hread]
      exact ⟨rfl,h⟩

/-- The same answers from the start of a session on. -/
structure Session.Replayed (s : Session T) : Prop where
  answers : (Naive.empty.replay s.trace).1 = s.trace.map Prod.snd
  refines : Refines s.backlog (Naive.empty.replay s.trace).2

theorem next_replayed (h : s.Replayed) (hn : s.next command = some s') : s'.Replayed := by
  unfold Session.next at hn
  split at hn
  · next hcall =>
    cases hn
    obtain ⟨hanswer,hrefines⟩ := call_refines h.refines hcall
    refine ⟨?_,?_⟩
    · simp only [Naive.replay_append,Naive.replay,List.map_append,h.answers,hanswer,List.map_cons,
        List.map_nil]
    · simp only [Naive.replay_append,Naive.replay]
      exact hrefines
  · cases hn

theorem reachable_replayed (h : (machine T).Reachable s) : s.Replayed := by
  apply (machine T).invariant Session.Replayed _ (fun _ _ _ hs hn => next_replayed hs hn) h
  rintro s₀ (rfl | rfl)
  · exact ⟨rfl,elastic_refines⟩
  · exact ⟨rfl,fixed_refines⟩

def Command.message : Command T → Option T
  | .publish msg | .publishRetained msg | .publishDiscarded msg => some msg
  | _ => none

def published (trace : List (Command T × Response T)) : List T :=
  trace.filterMap fun entry => entry.1.message

def receivedBy (key : SlotId) (trace : List (Command T × Response T)) : List T :=
  trace.filterMap fun entry =>
    match entry with
    | (.receive key',.received (some (msg,_))) => if key' = key then some msg else none
    | _ => none

theorem Naive.step_messages (n : Naive T) (fresh : SlotId) (command : Command T) :
    (n.step fresh command).2.messages = n.messages++command.message.toList := by
  cases command with
  | receive key =>
    simp only [step,Command.message,Option.toList_none,List.append_nil]
    split
    · rfl
    · split <;> rfl
  | _ => simp [step,Command.message,push,setCursor]

theorem Naive.replay_messages (n : Naive T) (trace : List (Command T × Response T)) :
    (n.replay trace).2.messages = n.messages++published trace := by
  induction trace generalizing n with
  | nil => simp [replay,published]
  | cons entry trace ih =>
    simp only [replay,ih,step_messages,published,List.filterMap_cons]
    cases entry.1.message <;> simp

/-- Receiver `key`, subscribed when `base` was the trace, has received the messages
published since, up to its cursor. -/
structure Delivery (key : SlotId) (base : List (Command T × Response T)) (s : Session T) : Prop where
  replayed : s.Replayed
  order : ∃ new c, s.trace = base++new ∧ s.backlog.cursor key = some ((published base).length+c) ∧
    receivedBy key new = (published new).take c

theorem Naive.step_cursor {fresh key : SlotId} (hfresh : command = .subscribe → fresh ≠ key)
    (hremove : command ≠ .removeReceiver key) (hreceive : command ≠ .receive key) :
    (n.step fresh command).2.cursors key = n.cursors key := by
  cases command with
  | subscribe =>
    have hne := hfresh rfl
    simp [step,setCursor,Function.update_of_ne hne.symm]
  | removeReceiver key' =>
    have hne : key ≠ key' := by
      rintro rfl
      exact hremove rfl
    simp [step,setCursor,Function.update_of_ne hne]
  | receive key' =>
    have hne : key ≠ key' := by
      rintro rfl
      exact hreceive rfl
    simp only [step]
    split
    · rfl
    · split
      · rfl
      · simp [setCursor,Function.update_of_ne hne]
  | _ => rfl

theorem receivedBy_other {key : SlotId} (hreceive : command ≠ .receive key) (response : Response T) :
    receivedBy key [(command,response)] = [] := by
  cases command with
  | receive key' =>
    have hne : key' ≠ key := by
      rintro rfl
      exact hreceive rfl
    cases response with
    | received r => cases r <;> simp [receivedBy,hne]
    | _ => rfl
  | _ => rfl

theorem next_delivery {key : SlotId} {base : List (Command T × Response T)} (h : Delivery key base s)
    (hremove : command ≠ .removeReceiver key) (hn : s.next command = some s') :
    Delivery key base s' := by
  refine ⟨next_replayed h.replayed hn,?_⟩
  obtain ⟨new,c,htrace,hcursor,horder⟩ := h.order
  unfold Session.next at hn
  split at hn
  · next hcall =>
    cases hn
    have hrefines := h.replayed.refines
    obtain ⟨hanswer,hnew⟩ := call_refines hrefines hcall
    have hmessages : (Naive.empty.replay s.trace).2.messages = published base++published new := by
      rw [Naive.replay_messages,htrace]
      simp [Naive.empty,published]
    have hle : c ≤ (published new).length := by
      have hbounds := (cursor_bounds hcursor).2
      rw [hrefines.tail,hmessages,List.length_append] at hbounds
      omega
    generalize (Naive.empty.replay s.trace).2 = n at hrefines hanswer hnew hmessages
    have hn : n.cursors key = some ((published base).length+c) := by
      rw [← hrefines.cursors]
      exact hcursor
    refine ⟨new++[(command,(call s.backlog command).1)],?_⟩
    have htrace' : s.trace++[(command,(call s.backlog command).1)] =
        base++(new++[(command,(call s.backlog command).1)]) := by
      rw [htrace,List.append_assoc]
    have hreceived : receivedBy key (new++[(command,(call s.backlog command).1)]) =
        receivedBy key new++receivedBy key [(command,(call s.backlog command).1)] := by
      simp [receivedBy]
    have hpublished : published (new++[(command,(call s.backlog command).1)]) =
        published new++command.message.toList := by
      simp only [published,List.filterMap_append,List.filterMap_cons,List.filterMap_nil]
      cases command.message <;> rfl
    by_cases hreceive : command = .receive key
    · subst hreceive
      have hread : n.messages[(published base).length+c]? = (published new)[c]? := by
        rw [hmessages,List.getElem?_append_right (Nat.le_add_right _ _),Nat.add_sub_cancel_left]
      simp only [Command.message,Option.toList_none,List.append_nil] at hpublished
      simp only [Naive.step,hn,hread] at hanswer hnew
      cases hmsg : (published new)[c]? with
      | none =>
        simp only [hmsg] at hanswer hnew
        refine ⟨c,htrace',by rw [hnew.cursors,hn],?_⟩
        rw [hreceived,hpublished,← hanswer,horder]
        simp [receivedBy]
      | some msg =>
        simp only [hmsg] at hanswer hnew
        refine ⟨c+1,htrace',by rw [hnew.cursors]; simp [Naive.setCursor,Nat.add_assoc],?_⟩
        rw [hreceived,hpublished,← hanswer,horder,List.take_add_one,hmsg]
        simp [receivedBy]
    · refine ⟨c,htrace',?_,?_⟩
      · rw [hnew.cursors,← hn]
        apply Naive.step_cursor _ hremove hreceive
        rintro rfl heq
        have hfresh := s.backlog.subscribe_spec.1
        have hsame : s.backlog.cursor key = none := by
          rw [← heq]
          exact hfresh
        simp [hcursor] at hsame
      · rw [hreceived,receivedBy_other hreceive,List.append_nil,horder,hpublished,
          List.take_append_of_le_length hle]
  · cases hn

theorem Delivery.caught_up {key : SlotId} {base new : List (Command T × Response T)}
    (h : Delivery key base s) (htrace : s.trace = base++new)
    (hcursor : s.backlog.cursor key = some ((published base).length+c))
    (hn : s.next (.receive key) = some s')
    (hlast : s'.trace.getLast? = some (.receive key,.received none)) : (published new).length ≤ c := by
  have hrefines := h.replayed.refines
  have hmessages := Naive.replay_messages Naive.empty s.trace
  unfold Session.next at hn
  split at hn
  · next hcall =>
    cases hn
    obtain ⟨hanswer,-⟩ := call_refines hrefines hcall
    simp only [List.getLast?_append,List.getLast?_singleton,Option.some_or,Option.some.injEq,
      Prod.mk.injEq,true_and] at hlast
    rw [hlast] at hanswer
    generalize (Naive.empty.replay s.trace).2 = n at hrefines hanswer hmessages
    rw [htrace] at hmessages
    have hn : n.cursors key = some ((published base).length+c) := by
      rw [← hrefines.cursors]
      exact hcursor
    have hread : n.messages[(published base).length+c]? = (published new)[c]? := by
      have hsplit : n.messages = published base++published new := by
        rw [hmessages]
        simp [Naive.empty,published]
      rw [hsplit,List.getElem?_append_right (Nat.le_add_right _ _),Nat.add_sub_cancel_left]
    simp only [Naive.step,hn,hread] at hanswer
    cases hmsg : (published new)[c]? with
    | none => exact List.getElem?_eq_none_iff.mp hmsg
    | some msg => simp [hmsg] at hanswer
  · cases hn

theorem subscribe_delivery (h : s.Replayed) (hn : s.next .subscribe = some s') :
    Delivery s.backlog.subscribe.1 s'.trace s' := by
  have hreplayed := next_replayed h hn
  have htail := h.refines.tail
  rw [Naive.replay_messages] at htail
  cases hn
  refine ⟨hreplayed,[],0,by simp,?_,by simp [receivedBy]⟩
  obtain ⟨-,hcursor,-⟩ := s.backlog.subscribe_spec
  show s.backlog.subscribe.2.cursor s.backlog.subscribe.1 = _
  rw [hcursor,Function.update_self,htail]
  simp [Naive.empty,published,Command.message]

/-- The session got the answers of the full list with cursors, and what was reclaimed is
exactly what is no longer retained. -/
structure Session.Faithful (s : Session T) : Prop where
  answers : (Naive.empty.replay s.trace).1 = s.trace.map Prod.snd
  refines : Refines s.backlog (Naive.empty.replay s.trace).2
  retained : s.backlog.retained = (Naive.empty.replay s.trace).2.retained
  inv : s.backlog.raw.Inv
  sound : ∀ entry ∈ s.trace, ∀ message, entry.2 ≠ .panicked message
  /-- A subscription receives what is published after it, in order and without gaps. -/
  delivers : ∀ s₁ run s₂, s.next .subscribe = some s₁ → (machine T).exec s₁ run = some s₂ →
    .removeReceiver s.backlog.subscribe.1 ∉ run →
    ∃ new, s₂.trace = s₁.trace++new ∧
      receivedBy s.backlog.subscribe.1 new <+: published new ∧
      ∀ s₃, s₂.next (.receive s.backlog.subscribe.1) = some s₃ →
        s₃.trace.getLast? = some (.receive s.backlog.subscribe.1,.received none) →
        receivedBy s.backlog.subscribe.1 new = published new

theorem backlog_refinement {s : Session T} (h : (machine T).Reachable s) : s.Faithful := by
  have hreplayed := reachable_replayed h
  refine ⟨hreplayed.answers,hreplayed.refines,hreplayed.refines.retained.symm,s.backlog.inv,?_,?_⟩
  · intro entry hmem message heq
    apply Naive.replay_ne_panicked Naive.empty s.trace message
    rw [hreplayed.answers,← heq]
    exact List.mem_map_of_mem hmem
  · intro s₁ run s₂ hsub hrun hlive
    have hdelivery := (machine T).exec_invariant
      (· ≠ .removeReceiver s.backlog.subscribe.1) (Delivery s.backlog.subscribe.1 s₁.trace)
      (fun _ _ _ hremove hs hn => next_delivery hs hremove hn)
      (fun command hmem heq => hlive (by rw [← heq]; exact hmem)) (subscribe_delivery hreplayed hsub) hrun
    obtain ⟨new,c,htrace,hcursor,horder⟩ := hdelivery.order
    refine ⟨new,htrace,by rw [horder]; exact List.take_prefix c _,?_⟩
    intro s₃ hn hlast
    rw [horder]
    exact List.take_of_length_le (hdelivery.caught_up htrace hcursor hn hlast)

/-- Two receivers; the slow one pins a message and is then removed. -/
def backlogRun : List (Command ℕ) :=
  [.publish 9,.subscribe,.publish 10,.subscribe,.receive 0]

def laterRun : List (Command ℕ) :=
  [.publish 11,.publish 12,.receive 1,.receive 2,.removeReceiver 0,.receive 1]

theorem backlog_refinement_laterRun :
    ∃ s s₁ s₂, (machine ℕ).exec ⟨elastic,[]⟩ backlogRun = some s ∧
      s.next .subscribe = some s₁ ∧ (machine ℕ).exec s₁ laterRun = some s₂ ∧
      s₂.trace.map Prod.snd =
        [.published (some 9),.subscribed 0,.published none,.subscribed 1,.received (some (10,1)),
          .subscribed 2,.published none,.published none,.received (some (11,0)),
          .received (some (11,0)),.removed [11] 1,.received (some (12,0))] ∧
      ∃ new, s₂.trace = s₁.trace++new ∧ receivedBy 2 new <+: published new := by
  refine ⟨_,_,_,rfl,rfl,rfl,rfl,?_⟩
  have hreach : (machine ℕ).Reachable
      (((machine ℕ).exec ⟨elastic,[]⟩ backlogRun).getD ⟨elastic,[]⟩) :=
    ⟨_,backlogRun,Or.inl rfl,fun _ _ => trivial,rfl⟩
  obtain ⟨new,htrace,hfirst,-⟩ :=
    (backlog_refinement hreach).delivers _ laterRun _ rfl rfl (by decide)
  exact ⟨new,htrace,hfirst⟩

end Backlog
end Asyncband
