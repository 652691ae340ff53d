import Lizlib.Concurrent.Equiv.ConsumerChain

/-!
# The lock-free queue with several consumers

Even if no address is ever reused, `Pop` is safe exactly in the runs in which no consumer finds
`head_` null after it has found `tail_` set, and none deletes a node that another one has loaded
from `head_` and not read yet (`sound_iff_careful`).
-/

namespace Lizlib

/-- The node `Pop` has loaded from `head_` and reads later on. -/
def PopPc.reads {A : Type*} : PopPc A → Option (Option A)
  | .casTail head_read | .storeHead head_read | .take head_read => some (some head_read)
  | .loadNext head_read => some head_read
  | _ => none

namespace FreshQueue

open Function (update update_self update_of_ne)
open LockFreeQueue (withNode)

variable {P C A E : Type*}

/-- What a consumer has loaded from `head_` and goes on to read is a live node. -/
def Live (m : QueueMem A E) (pop : C → PopPc A) : Prop :=
  ∀ c o, (pop c).reads = some o → ∃ h nd, o = some h ∧ m.heap h = some nd

/-- `Pop` never reads through a `head_read` that is null or deleted, and no element is returned
twice. -/
structure Sound (s : FreshQueue P C A E) : Prop where
  live : Live s.queue.mem s.queue.pop
  no_fault : s.queue.fault = false
  once : s.taken.Nodup

/-- A load of `head_` after a load of `tail_` that was not null finds a node, and no consumer
deletes a node that another one has loaded from `head_` and still has to read. -/
def Careful : QueueLabel P C A E → FreshQueue P C A E → Prop
  | .pop c, s =>
    (∀ t, s.queue.pop c = .loadHead t → s.queue.mem.head_ ≠ none) ∧
    ∀ h, s.queue.pop c = .take h → ∀ d, d ≠ c → (s.queue.pop d).reads ≠ some (some h)
  | _, _ => True

variable {m : QueueMem A E} {push : P → PushPc A} {pop : C → PopPc A} {chain : List (Linked P A E)}
  {used taken : List A}

/-! ### What the consumers read -/

theorem Live.mono {m' : QueueMem A E} (h : Live m pop)
    (hheap : ∀ a nd, m.heap a = some nd → ∃ nd', m'.heap a = some nd') : Live m' pop := by
  intro c o hc
  obtain ⟨a, nd, ho, ha⟩ := h c o hc
  obtain ⟨nd', ha'⟩ := hheap a nd ha
  exact ⟨a, nd', ho, ha'⟩

theorem Live.update [DecidableEq C] (h : Live m pop) {c : C} {pc : PopPc A}
    (hpc : ∀ o, pc.reads = some o → ∃ a nd, o = some a ∧ m.heap a = some nd) :
    Live m (update pop c pc) := by
  intro d o hd
  by_cases hdc : d = c
  · subst hdc
    rw [update_self] at hd
    exact hpc o hd
  · rw [update_of_ne hdc] at hd
    exact h d o hd

/-- A consumer that has nothing more to read. -/
theorem Live.leave [DecidableEq C] (h : Live m pop) {c : C} {pc : PopPc A} (hpc : pc.reads = none) :
    Live m (Function.update pop c pc) := by
  apply h.update
  intro o ho
  rw [hpc] at ho
  cases ho

/-- A consumer that goes on with a live node. -/
theorem Live.advance [DecidableEq C] (h : Live m pop) {a : A} {nd : Node A E}
    (ha : m.heap a = some nd) {c : C} {pc : PopPc A} (hpc : pc.reads = some (some a)) :
    Live m (Function.update pop c pc) := by
  apply h.update
  intro o ho
  exact ⟨a, nd, Option.some.inj (ho.symm.trans hpc), ha⟩

/-- A deletion that nobody else waits to read. -/
theorem Live.take [DecidableEq A] [DecidableEq C] (h : Live m pop) {c : C} {a : A}
    (hother : ∀ d, d ≠ c → (pop d).reads ≠ some (some a)) :
    Live (withNode m a none) (Function.update pop c .idle) := by
  intro d o hd
  obtain ⟨hdc, hd⟩ := obs_of_update rfl hd
  obtain ⟨b, nd, rfl, hb⟩ := h d o hd
  have hba : b ≠ a := by
    rintro rfl
    exact hother d hdc hd
  exact ⟨b, nd, rfl, (update_of_ne hba _ _).trans hb⟩

section Steps

variable [DecidableEq P] [DecidableEq C] [DecidableEq A]

/-! ### Every step -/

omit [DecidableEq P] [DecidableEq C] in
/-- `Push` deletes nothing. -/
theorem live_pushStep {m' : QueueMem A E} {pc pc' : PushPc A}
    (h : m.pushStep pc = some (m', pc')) (a : A) (nd : Node A E) (ha : m.heap a = some nd) :
    ∃ nd', m'.heap a = some nd' := by
  cases pc with
  | storeNext n t =>
    cases ht : m.heap t with
    | none => simp [QueueMem.pushStep, ht] at h
    | some nt =>
      simp only [QueueMem.pushStep, ht, Option.some.injEq, Prod.mk.injEq] at h
      obtain ⟨rfl, -⟩ := h
      by_cases hat : a = t
      · subst hat
        exact ⟨_, update_self _ _ _⟩
      · exact ⟨nd, (update_of_ne hat _ _).trans ha⟩
  | _ =>
    simp only [QueueMem.pushStep] at h
    repeat' split at h
    all_goals
      obtain ⟨rfl, -⟩ := Prod.mk.inj (Option.some.inj h)
      exact ⟨nd, ha⟩

omit [DecidableEq P] [DecidableEq C] [DecidableEq A] in
theorem pop_link (q : LockFreeQueue P C A E) (p : P) (pc pc' : PushPc A) :
    (q.link p pc pc').pop = q.pop := by
  unfold LockFreeQueue.link
  split
  · split <;> rfl
  · split <;> rfl
  · rfl

variable {q : LockFreeQueue P C A E}

omit [DecidableEq C] in
theorem Live.pushStep (h : Live q.mem q.pop) (p : P) :
    Live (q.pushStep p).mem (q.pushStep p).pop := by
  unfold LockFreeQueue.pushStep
  cases hm : q.mem.pushStep (q.push p) with
  | none => exact h
  | some r =>
    obtain ⟨m', pc⟩ := r
    dsimp only
    rw [pop_link]
    exact h.mono (live_pushStep hm)

omit [DecidableEq C] in
theorem Inv.pushStep (h : Inv q.mem q.push q.pop q.chain used taken) {p : P}
    (hp : q.push p ≠ .idle) :
    Inv (q.pushStep p).mem (q.pushStep p).push (q.pushStep p).pop (q.pushStep p).chain used taken ∧
      (q.pushStep p).fault = q.fault := by
  unfold LockFreeQueue.pushStep
  cases hpc : q.push p with
  | idle => exact absurd hpc hp
  | loadTail n =>
    have hown : (q.push p).own = some n := by rw [hpc]; rfl
    have hstores : (q.push p).stores = false := by rw [hpc]; rfl
    cases ht : q.mem.tail_ with
    | none =>
      simpa [QueueMem.pushStep, ht, LockFreeQueue.link] using
        h.movePush (.casHead n) hown.symm hstores rfl
    | some t =>
      simpa [QueueMem.pushStep, ht, LockFreeQueue.link] using
        h.movePush (.casTail n t) hown.symm hstores rfl
  | casHead n =>
    have hown : (q.push p).own = some n := by rw [hpc]; rfl
    have hstores : (q.push p).stores = false := by rw [hpc]; rfl
    obtain ⟨x, hx⟩ := h.owned.own_live p n hown
    by_cases hhead : q.mem.head_ = none
    · simpa [QueueMem.pushStep, hhead, LockFreeQueue.link, hx] using h.linkHead hpc hx hhead
    · simpa [QueueMem.pushStep, hhead, LockFreeQueue.link] using
        h.movePush (.loadTail n) hown.symm hstores rfl
  | storeTail n => simpa [QueueMem.pushStep, LockFreeQueue.link] using h.storeTail hpc
  | onEmpty =>
    have hown : (q.push p).own = none := by rw [hpc]; rfl
    have hstores : (q.push p).stores = false := by rw [hpc]; rfl
    simpa [QueueMem.pushStep, LockFreeQueue.link] using
      h.movePush .idle hown.symm hstores rfl
  | casTail n t =>
    have hown : (q.push p).own = some n := by rw [hpc]; rfl
    have hstores : (q.push p).stores = false := by rw [hpc]; rfl
    obtain ⟨x, hx⟩ := h.owned.own_live p n hown
    by_cases ht : q.mem.tail_ = some t
    · simpa [QueueMem.pushStep, ht, LockFreeQueue.link, hx] using h.linkTail hpc hx ht
    · simpa [QueueMem.pushStep, ht, LockFreeQueue.link] using
        h.movePush (.loadTail n) hown.symm hstores rfl
  | storeNext n t =>
    obtain ⟨-, k, l, hkl, rfl, -⟩ := h.linkage.storeNext p n t hpc
    obtain ⟨next, hnext⟩ := h.owned.chain_live k hkl.left_mem
    simpa [QueueMem.pushStep, hnext, LockFreeQueue.link, withNode] using h.storeNext hpc hnext

omit [DecidableEq P] [DecidableEq A] in
/-- A consumer that begins again, or has found the queue empty. -/
theorem Inv.begin (h : Inv m push pop chain used taken) (hlive : Live m pop) {c : C}
    (hhand : (pop c).hand = none) (pc : PopPc A) (hhand' : pc.hand = none) (hseen : pc.seen = none)
    (hreads : pc.reads = none) :
    Inv m push (update pop c pc) chain used taken ∧ Live m (update pop c pc) :=
  ⟨h.restart pc hhand hhand' hseen, hlive.leave hreads⟩

omit [DecidableEq P] [DecidableEq A] in
/-- A consumer that has loaded `head_`. -/
theorem Inv.loadHead (h : Inv m push pop chain used taken) (hlive : Live m pop) {c : C} {a : A}
    (hhand : (pop c).hand = none) (ha : m.head_ = some a) (pc : PopPc A) (hhand' : pc.hand = none)
    (hseen : pc.seen = some a) (hreads : pc.reads = some (some a))
    (hcas : ∀ b d, pc ≠ .casHead b d) :
    Inv m push (update pop c pc) chain used taken ∧ Live m (update pop c pc) := by
  obtain ⟨⟨nd, hnd⟩, hown, hfirst⟩ := h.load_head ha
  have hnext : ∀ b d, pc = .casHead b d → ∀ nd, m.heap b = some nd → nd.next_ = some d :=
    fun b d hbd => absurd hbd (hcas b d)
  refine ⟨h.movePop pc hhand hhand' ?_ hnext, hlive.advance hnd hreads⟩
  intro b hb
  obtain rfl : a = b := Option.some.inj (hseen.symm.trans hb)
  exact ⟨h.owned.live_used a nd hnd, hown, hfirst⟩

omit [DecidableEq P] [DecidableEq A] in
/-- A consumer that goes on with the node it has loaded from `head_`. -/
theorem Inv.keepHead (h : Inv m push pop chain used taken) {c : C} {a : A}
    (hhand : (pop c).hand = none) (hseen : (pop c).seen = some a) {pc : PopPc A}
    (hhand' : pc.hand = none) (hseen' : pc.seen = some a)
    (hnext : ∀ b d, pc = .casHead b d → ∀ nd, m.heap b = some nd → nd.next_ = some d) :
    Inv m push (update pop c pc) chain used taken := by
  apply h.movePop pc hhand hhand' _ hnext
  intro b hb
  obtain rfl : a = b := Option.some.inj (hseen'.symm.trans hb)
  exact ⟨h.seen.used c a hseen, h.seen.own c a hseen, h.seen.head c a hseen⟩

omit [DecidableEq P] in
/-- The step of a consumer that finds `head_` set, and deletes nothing that another one waits to
read. -/
theorem Inv.popStep (h : Inv q.mem q.push q.pop q.chain used taken) (hlive : Live q.mem q.pop)
    {c : C} (hp : q.pop c ≠ .idle) (hhead : ∀ t, q.pop c = .loadHead t → q.mem.head_ ≠ none)
    (hother : ∀ a, q.pop c = .take a → ∀ d, d ≠ c → (q.pop d).reads ≠ some (some a)) :
    Inv (q.popStep c).mem (q.popStep c).push (q.popStep c).pop (q.popStep c).chain used
        (taken ++ (q.pop c).takes) ∧
      Live (q.popStep c).mem (q.popStep c).pop ∧ (q.popStep c).fault = q.fault := by
  unfold LockFreeQueue.popStep
  cases hpc : q.pop c with
  | idle => exact absurd hpc hp
  | loadTail =>
    have hhand : (q.pop c).hand = none := by rw [hpc]; rfl
    cases ht : q.mem.tail_ with
    | none =>
      simpa [QueueMem.popStep, ht, LockFreeQueue.unlink, PopPc.takes] using
        h.begin hlive hhand .idle rfl rfl rfl
    | some t =>
      simpa [QueueMem.popStep, ht, LockFreeQueue.unlink, PopPc.takes] using
        h.begin hlive hhand (.loadHead t) rfl rfl rfl
  | loadHead t =>
    have hhand : (q.pop c).hand = none := by rw [hpc]; rfl
    obtain ⟨a, ha⟩ := Option.ne_none_iff_exists'.mp (hhead t hpc)
    by_cases hat : a = t
    · subst hat
      simpa [QueueMem.popStep, ha, LockFreeQueue.unlink, PopPc.takes] using
        h.loadHead hlive hhand ha (.casTail a) rfl rfl rfl (by simp)
    · simpa [QueueMem.popStep, ha, hat, LockFreeQueue.unlink, PopPc.takes] using
        h.loadHead hlive hhand ha (.loadNext (some a)) rfl rfl rfl (by simp)
  | casTail a =>
    have hhand : (q.pop c).hand = none := by rw [hpc]; rfl
    have hseen : (q.pop c).seen = some a := by rw [hpc]; rfl
    obtain ⟨b, nd, hab, hnd⟩ := hlive c (some a) (by rw [hpc]; rfl)
    obtain rfl : a = b := Option.some.inj hab
    by_cases ht : q.mem.tail_ = some a
    · -- the node is unlinked, and stays until it is deleted
      obtain ⟨l, hchain, hinv⟩ := h.unlinkTail hpc ht
      have hlive' : Live { q.mem with tail_ := none } (update q.pop c (.storeHead a)) :=
        hlive.advance hnd rfl
      simpa [QueueMem.popStep, ht, LockFreeQueue.unlink, hchain, PopPc.takes] using
        And.intro hinv hlive'
    · have hinv : Inv q.mem q.push (update q.pop c (.loadNext (some a))) q.chain used taken :=
        h.keepHead hhand hseen rfl rfl (by simp)
      have hlive' : Live q.mem (update q.pop c (.loadNext (some a))) := hlive.advance hnd rfl
      simpa [QueueMem.popStep, ht, LockFreeQueue.unlink, PopPc.takes] using
        And.intro hinv hlive'
  | storeHead a =>
    obtain ⟨nd, hnd⟩ := h.owned.hand_live c a (by rw [hpc]; rfl)
    have hlive' : Live { q.mem with head_ := none } (update q.pop c (.take a)) :=
      hlive.advance hnd rfl
    simpa [QueueMem.popStep, LockFreeQueue.unlink, PopPc.takes] using
      And.intro (h.storeHead hpc) hlive'
  | loadNext o =>
    have hhand : (q.pop c).hand = none := by rw [hpc]; rfl
    obtain ⟨a, nd, rfl, hnd⟩ := hlive c o (by rw [hpc]; rfl)
    have hseen : (q.pop c).seen = some a := by rw [hpc]; rfl
    cases hn : nd.next_ with
    | none =>
      simpa [QueueMem.popStep, hnd, hn, LockFreeQueue.unlink, PopPc.takes] using
        h.begin hlive hhand .loadTail rfl rfl rfl
    | some b =>
      have hinv : Inv q.mem q.push (update q.pop c (.casHead a b)) q.chain used taken := by
        apply h.keepHead hhand hseen rfl rfl
        intro d e hde nd' hnd'
        obtain ⟨rfl, rfl⟩ := PopPc.casHead.inj hde
        rw [← Option.some.inj (hnd.symm.trans hnd'), hn]
      have hlive' : Live q.mem (update q.pop c (.casHead a b)) := hlive.leave rfl
      simpa [QueueMem.popStep, hnd, hn, LockFreeQueue.unlink, PopPc.takes] using
        And.intro hinv hlive'
  | casHead a b =>
    have hhand : (q.pop c).hand = none := by rw [hpc]; rfl
    by_cases ha : q.mem.head_ = some a
    · obtain ⟨l, rest, hchain, hinv⟩ := h.unlinkHead hpc ha
      obtain ⟨nd, hnd⟩ := (h.load_head ha).1
      have hlive' : Live { q.mem with head_ := some b } (update q.pop c (.take a)) :=
        hlive.advance hnd rfl
      simpa [QueueMem.popStep, ha, LockFreeQueue.unlink, hchain, PopPc.takes] using
        And.intro hinv hlive'
    · simpa [QueueMem.popStep, ha, LockFreeQueue.unlink, PopPc.takes] using
        h.begin hlive hhand .loadTail rfl rfl rfl
  | take a =>
    obtain ⟨nd, hnd⟩ := h.owned.hand_live c a (by rw [hpc]; rfl)
    simpa [QueueMem.popStep, hnd, LockFreeQueue.unlink, withNode, PopPc.takes] using
      And.intro (h.take hpc) (hlive.take (hother a hpc))

omit [DecidableEq P] in
/-- A load of `head_` that finds it null. -/
theorem not_live_loadHead {c : C} {t : A} (hpc : q.pop c = .loadHead t) (hhead : q.mem.head_ = none) :
    ¬ Live (q.popStep c).mem (q.popStep c).pop := by
  intro h
  have hread : ((q.popStep c).pop c).reads = some none := by
    simp [LockFreeQueue.popStep, hpc, QueueMem.popStep, hhead, PopPc.reads]
  obtain ⟨a, nd, ho, -⟩ := h c none hread
  cases ho

omit [DecidableEq P] in
/-- A deletion of a node that another consumer has loaded and still has to read. -/
theorem not_live_take {c d : C} {a : A} {nd : Node A E} (hpc : q.pop c = .take a)
    (hnd : q.mem.heap a = some nd) (hdc : d ≠ c) (hd : (q.pop d).reads = some (some a)) :
    ¬ Live (q.popStep c).mem (q.popStep c).pop := by
  intro h
  have hread : ((q.popStep c).pop d).reads = some (some a) := by
    simpa [LockFreeQueue.popStep, hpc, QueueMem.popStep, hnd, LockFreeQueue.unlink, hdc] using hd
  have hdead : (q.popStep c).mem.heap a = none := by
    simp [LockFreeQueue.popStep, hpc, QueueMem.popStep, hnd]
  obtain ⟨b, nd', ho, hb⟩ := h d _ hread
  obtain rfl : a = b := Option.some.inj ho
  simp [hdead] at hb

/-- The invariant of a queue. -/
def Kept (s : FreshQueue P C A E) : Prop :=
  Inv s.queue.mem s.queue.push s.queue.pop s.queue.chain s.used s.taken

omit [DecidableEq P] [DecidableEq C] [DecidableEq A] in
theorem sound_of_kept {s : FreshQueue P C A E} (h : Kept s)
    (hlive : Live s.queue.mem s.queue.pop) (hfault : s.queue.fault = false) : Sound s ∧ Kept s :=
  ⟨⟨hlive, hfault, h.owned.taken_nodup⟩, h⟩

/-- One step from a sound state leads to a sound state exactly if it is careful. -/
theorem step_spec {l : QueueLabel P C A E} {s t : FreshQueue P C A E} (h : Kept s) (hs : Sound s)
    (ht : step l s = some t) :
    (Careful l s → Sound t ∧ Kept t) ∧ (¬ Careful l s → ¬ Sound t) := by
  cases l with
  | callPush p x n =>
    refine ⟨fun _ => ?_, fun hg => absurd trivial hg⟩
    simp only [step, LockFreeQueue.step] at ht
    split_ifs at ht with hfresh hen
    · obtain rfl := Option.some.inj ht
      apply sound_of_kept
      · exact h.callPush hfresh hen.1
      · apply hs.live.mono
        intro a nd ha
        exact ⟨nd, (update_of_ne (h.owned.ne_of_live hfresh ha) _ _).trans ha⟩
      · exact hs.no_fault
    · cases ht
  | push p =>
    refine ⟨fun _ => ?_, fun hg => absurd trivial hg⟩
    simp only [step, LockFreeQueue.step] at ht
    split_ifs at ht with hp
    · cases ht
    · obtain rfl := Option.some.inj ht
      obtain ⟨hinv, hfault⟩ := Inv.pushStep h hp
      exact sound_of_kept hinv (hs.live.pushStep p) (hfault.trans hs.no_fault)
  | callPop c =>
    refine ⟨fun _ => ?_, fun hg => absurd trivial hg⟩
    simp only [step, LockFreeQueue.step] at ht
    split_ifs at ht with hp
    · obtain rfl := Option.some.inj ht
      have hhand : (s.queue.pop c).hand = none := by rw [hp]; rfl
      apply sound_of_kept
      · exact h.restart .loadTail hhand rfl rfl
      · exact hs.live.leave rfl
      · exact hs.no_fault
    · cases ht
  | pop c =>
    simp only [step, LockFreeQueue.step] at ht
    split_ifs at ht with hp
    · cases ht
    obtain rfl := Option.some.inj ht
    constructor
    · rintro ⟨hhead, hother⟩
      obtain ⟨hinv, hlive, hfault⟩ := Inv.popStep h hs.live hp hhead hother
      exact sound_of_kept hinv hlive (hfault.trans hs.no_fault)
    · intro hg ht'
      rw [Careful, not_and_or] at hg
      push Not at hg
      rcases hg with ⟨u, hpc, hnone⟩ | ⟨a, hpc, d, hdc, hd⟩
      -- the consumer goes on with the null it has loaded
      · exact not_live_loadHead hpc hnone ht'.live
      · obtain ⟨nd, hnd⟩ := h.owned.hand_live c a (by rw [hpc]; rfl)
        -- the other consumer is left with a deleted node
        exact not_live_take hpc hnd hdc hd ht'.live
  | empty c =>
    refine ⟨fun _ => ?_, fun hg => absurd trivial hg⟩
    simp only [step, LockFreeQueue.step] at ht
    split_ifs at ht with hp
    · obtain rfl := Option.some.inj ht
      exact ⟨hs, h⟩
    · cases ht

omit [DecidableEq P] [DecidableEq C] [DecidableEq A] in
theorem kept_start : Kept (start : FreshQueue P C A E) ∧ Sound (start : FreshQueue P C A E) := by
  refine ⟨⟨?_, ?_, ?_⟩, ?_⟩
  · constructor <;> simp [start, LockFreeQueue.start, PushPc.own, PopPc.hand]
  · constructor <;> simp [start, LockFreeQueue.start, PopPc.seen]
  · constructor <;> simp [start, LockFreeQueue.start]
  · constructor <;> simp [start, LockFreeQueue.start, Live, PopPc.reads]

/-- **Several consumers**: along a schedule no `Pop` reads through a null or deleted `head_read` and
no element is returned twice, if and only if every load of `head_` finds a node and no consumer
deletes one that another has loaded and still has to read. -/
theorem sound_iff_careful (ls : List (QueueLabel P C A E)) :
    (freshQueue P C A E).AllStates Sound ls start ↔
      (freshQueue P C A E).AllSteps Careful ls start := by
  obtain ⟨hkept, hsound⟩ := kept_start (P := P) (C := C) (A := A) (E := E)
  apply System.allStates_iff_allSteps (I := Kept) _ _ ls hkept hsound
  · intro l s t h hs ht ht'
    obtain ⟨hok, hbad⟩ := step_spec h hs ht
    by_cases hg : Careful l s
    · exact (hok hg).2
    · exact absurd ht' (hbad hg)
  · intro l s t h hs ht
    obtain ⟨hok, hbad⟩ := step_spec h hs ht
    constructor
    · intro ht'
      by_contra hg
      exact hbad hg ht'
    · exact fun hg => (hok hg).1

end Steps

/-- A consumer has loaded `tail_`, and another one pops the only node before it loads `head_`. -/
def emptiedMeanwhile : List (QueueLabel Unit Bool Nat Unit) :=
  [.callPush () () 0, .push (), .push (), .push (), .push (), .callPop true, .pop true,
    .callPop false, .pop false, .pop false, .pop false, .pop false, .pop true]

/-- The `head_read` of the first consumer is null. -/
theorem emptiedMeanwhile_not_sound :
    ¬ (freshQueue Unit Bool Nat Unit).AllStates Sound emptiedMeanwhile start := by
  have hrun : ∃ t, (freshQueue Unit Bool Nat Unit).run emptiedMeanwhile start = some t ∧
      t.queue.pop true = .loadNext none := ⟨_, rfl, rfl⟩
  obtain ⟨t, ht, hpc⟩ := hrun
  intro h
  obtain ⟨a, nd, ho, -⟩ := (h.last ht).live true none (by rw [hpc]; rfl)
  cases ho

end FreshQueue

end Lizlib
