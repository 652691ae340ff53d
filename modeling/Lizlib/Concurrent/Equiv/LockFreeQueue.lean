import Mathlib.Data.List.Nodup
import Mathlib.Logic.Function.Basic
import Lizlib.Concurrent.LockFreeQueue
import Lizlib.Data.Adjacent

/-!
# The lock-free queue is a FIFO

With one consumer, the nodes linked by a successful compare-exchange and not yet unlinked form a
chain; `Inv` describes every half-linked state the separate updates of `head_`, `tail_` and `next_`
can leave it in:

* `Ownership`: a live node belongs to one producer that has not linked it yet, to the chain, or to
  the consumer that has unlinked it, and to no two of them;
* `Shape`: `head_` is the first node of the chain.  `tail_` is its last node, except that it is
  still null while the producer of a chain of length one is about to store it.  A null `next_`
  inside the chain means that the producer of the following node is about to write it;
* `History`: pushes, pops and returned values add up.

Each transition of the code keeps all three (`inv_step`), and `Linearizable` follows in every state
of every run (`allStates_linearizable`).
-/

namespace Lizlib

/-- The node a producer has allocated and not linked in yet. -/
def PushPc.own {A : Type*} : PushPc A → Option A
  | .loadTail node | .casHead node | .casTail node _ => some node
  | _ => none

/-- `Push` has linked its node in and has not returned. -/
def PushPc.linked {A : Type*} : PushPc A → Bool
  | .storeTail _ | .onEmpty | .storeNext _ _ => true
  | _ => false

/-- The node a consumer has unlinked and not deleted yet. -/
def PopPc.hand {A : Type*} : PopPc A → Option A
  | .storeHead head_read | .take head_read => some head_read
  | _ => none

/-- The `next_` of a node. -/
def QueueMem.next {A E : Type*} (m : QueueMem A E) (a : A) : Option A := (m.heap a).bind Node.next_

/-- The element stored in a node, as a list of at most one. -/
def QueueMem.elementAt {A E : Type*} (m : QueueMem A E) (a : Option A) : List E :=
  ((a.bind m.heap).map Node.element_).toList

namespace LockFreeQueue

variable {P A E : Type*}

/-! ### The invariant -/

/-- A live node has one owner. -/
structure Ownership (s : LockFreeQueue P Unit A E) : Prop where
  own_live : ∀ p n, (s.push p).own = some n → ∃ x, s.mem.heap n = some ⟨none, x⟩
  own_unique : ∀ p q n, (s.push p).own = some n → (s.push q).own = some n → p = q
  own_chain : ∀ p n, (s.push p).own = some n → ∀ c ∈ s.chain, c.node ≠ n
  chain_live : ∀ c ∈ s.chain, ∃ next, s.mem.heap c.node = some ⟨next, c.element⟩
  chain_nodup : (s.chain.map Linked.node).Nodup
  hand_live : ∀ h, (s.pop ()).hand = some h → ∃ n, s.mem.heap h = some n
  hand_own : ∀ h, (s.pop ()).hand = some h → ∀ p, (s.push p).own ≠ some h
  hand_chain : ∀ h, (s.pop ()).hand = some h → ∀ c ∈ s.chain, c.node ≠ h

/-- What the consumer may rely on between the loads of one `Pop`. -/
def Reads (s : LockFreeQueue P Unit A E) : PopPc A → Prop
  | .loadHead _ => s.mem.tail_ ≠ none
  | .casTail h => s.mem.tail_ ≠ none ∧ s.mem.head_ = some h
  | .loadNext h => s.mem.tail_ ≠ none ∧ s.mem.head_ = h
  | .casHead h n => s.mem.tail_ ≠ none ∧ s.mem.head_ = some h ∧ s.mem.next h = some n
  | _ => True

/-- How the chain is linked. -/
structure Shape (s : LockFreeQueue P Unit A E) : Prop where
  head_cons : ∀ c, s.chain.head? = some c → s.mem.head_ = some c.node
  head_nil : s.chain = [] → ∀ h, s.mem.head_ = some h ↔ s.pop () = .storeHead h
  tail_some : ∀ t, s.mem.tail_ = some t → ∃ c, s.chain.getLast? = some c ∧ c.node = t
  tail_none : s.mem.tail_ = none →
    s.chain = [] ∨ ∃ c, s.chain = [c] ∧ s.push c.producer = .storeTail c.node
  storeTail : ∀ p n, s.push p = .storeTail n → s.mem.tail_ = none ∧ ∃ x, s.chain = [⟨n, p, x⟩]
  storeHead : ∀ h, s.pop () = .storeHead h → s.chain = []
  links : ∀ c d, s.chain.Adjacent c d → s.mem.next c.node = some d.node ∨
    (s.mem.next c.node = none ∧ s.push d.producer = .storeNext d.node c.node)
  last : ∀ c, s.chain.getLast? = some c → s.mem.next c.node = none
  storeNext : ∀ p n t, s.push p = .storeNext n t → s.mem.next t = none ∧
    ∃ c d, s.chain.Adjacent c d ∧ c.node = t ∧ d.node = n ∧ d.producer = p
  reads : s.Reads (s.pop ())

/-- The elements of the pushes of one producer. -/
def ofProducer [DecidableEq P] (p : P) (l : List (P × E)) : List E :=
  (l.filter fun x => x.1 = p).map Prod.snd

/-- Pushes, pops and returned values add up. -/
structure History [DecidableEq P] (s : LockFreeQueue P Unit A E) : Prop where
  pushed : s.pushed = s.popped ++ s.chain.map fun c => (c.producer, c.element)
  calls : ∀ p, s.calls p = ofProducer p s.pushed ++ s.mem.elementAt (s.push p).own
  done : ∀ p, s.done p + (s.push p).linked.toNat = (ofProducer p s.pushed).length
  returned : s.popped.map Prod.snd = s.returned ++ s.mem.elementAt (s.pop ()).hand

structure Inv [DecidableEq P] (s : LockFreeQueue P Unit A E) : Prop where
  owner : s.Ownership
  shape : s.Shape
  history : s.History
  no_fault : s.fault = false

section OfProducer

variable [DecidableEq P]

@[simp] theorem ofProducer_nil (p : P) : ofProducer p ([] : List (P × E)) = [] := rfl

@[simp] theorem ofProducer_append (p : P) (l m : List (P × E)) :
    ofProducer p (l ++ m) = ofProducer p l ++ ofProducer p m := by
  simp [ofProducer]

@[simp] theorem ofProducer_self (p : P) (x : E) : ofProducer p [(p, x)] = [x] := by
  simp [ofProducer]

theorem ofProducer_ne {p q : P} (h : p ≠ q) (x : E) : ofProducer q [(p, x)] = [] := by
  simp [ofProducer, h]

end OfProducer

theorem inv_start [DecidableEq P] : Inv (start : LockFreeQueue P Unit A E) where
  owner := by constructor <;> simp [start, PushPc.own, PopPc.hand]
  shape := by constructor <;> simp [start, Reads]
  history := by
    constructor <;> simp [start, PushPc.own, PopPc.hand, PushPc.linked, QueueMem.elementAt]
  no_fault := rfl

/-! ### What the shape says about a state -/

section Shape

variable {s : LockFreeQueue P Unit A E}

theorem Shape.chain_eq_nil (h : Shape s) (hhead : s.mem.head_ = none) : s.chain = [] := by
  cases hc : s.chain with
  | nil => rfl
  | cons c l => simpa [hhead] using h.head_cons c (by simp [hc])

theorem Shape.tail_eq_none (h : Shape s) (hnil : s.chain = []) : s.mem.tail_ = none := by
  cases ht : s.mem.tail_ with
  | none => rfl
  | some t =>
    obtain ⟨c, hc, -⟩ := h.tail_some t ht
    simp [hnil] at hc

/-- While `tail_` is set, `head_` is the first node of the chain. -/
theorem Shape.exists_head (h : Shape s) (htail : s.mem.tail_ ≠ none) :
    ∃ c l, s.chain = c :: l ∧ s.mem.head_ = some c.node := by
  cases hc : s.chain with
  | nil => exact absurd (h.tail_eq_none hc) htail
  | cons c l => exact ⟨c, l, rfl, h.head_cons c (by simp [hc])⟩

/-- No store to `tail_` is outstanding while `tail_` is set. -/
theorem Shape.push_ne_storeTail (h : Shape s) (htail : s.mem.tail_ ≠ none) (p : P) (n : A) :
    s.push p ≠ .storeTail n := fun hp => htail (h.storeTail p n hp).1

/-- The consumer's reads stay good while `tail_` is set, `head_` stays, and no link of a node that
has one changes. -/
theorem Shape.reads_of_le {s' : LockFreeQueue P Unit A E} (h : Shape s) (hpop : s'.pop = s.pop)
    (hhead : s'.mem.head_ = s.mem.head_) (htail : s.mem.tail_ ≠ none → s'.mem.tail_ ≠ none)
    (hnext : ∀ a n, s.mem.head_ = some a → s.mem.next a = some n → s'.mem.next a = some n) :
    s'.Reads (s'.pop ()) := by
  have hreads := h.reads
  rw [hpop]
  cases hp : s.pop () with
  | loadHead t =>
    rw [hp] at hreads
    exact htail hreads
  | casTail t =>
    rw [hp] at hreads
    exact ⟨htail hreads.1, hhead.trans hreads.2⟩
  | loadNext t =>
    rw [hp] at hreads
    exact ⟨htail hreads.1, hhead.trans hreads.2⟩
  | casHead t n =>
    rw [hp] at hreads
    exact ⟨htail hreads.1, hhead.trans hreads.2.1, hnext t n hreads.2.1 hreads.2.2⟩
  | idle => trivial
  | loadTail => trivial
  | storeHead t => trivial
  | take t => trivial

end Shape

/-! ### Steps of a producer -/

open Function

theorem own_update [DecidableEq P] (f : P → PushPc A) (p : P) (pc : PushPc A) (q : P) :
    (update f p pc q).own = if q = p then pc.own else (f q).own := by
  rw [update_apply]
  split_ifs <;> rfl

theorem linked_update [DecidableEq P] (f : P → PushPc A) (p : P) (pc : PushPc A) (q : P) :
    (update f p pc q).linked = if q = p then pc.linked else (f q).linked := by
  rw [update_apply]
  split_ifs <;> rfl

/-- What a producer owns, unless it is the one that has moved on to own nothing. -/
theorem own_of_update [DecidableEq P] {f : P → PushPc A} {p q : P} {pc : PushPc A} {a : A}
    (hpc : pc.own = none) (hq : (update f p pc q).own = some a) : q ≠ p ∧ (f q).own = some a := by
  rw [own_update] at hq
  split_ifs at hq with hqp
  · rw [hpc] at hq
    cases hq
  · exact ⟨hqp, hq⟩

/-- A producer that does not stand where the one that has moved stands now has not moved. -/
theorem push_of_update [DecidableEq P] {f : P → PushPc A} {p q : P} {pc pc' : PushPc A}
    (hne : pc' ≠ pc) (hq : update f p pc q = pc') : q ≠ p ∧ f q = pc' := by
  by_cases hqp : q = p
  · subst hqp
    rw [update_self] at hq
    exact absurd hq.symm hne
  · rw [update_of_ne hqp] at hq
    exact ⟨hqp, hq⟩

/-- The memory after a write to the node at `a`. -/
def withNode [DecidableEq A] (m : QueueMem A E) (a : A) (n : Option (Node A E)) : QueueMem A E :=
  { m with heap := update m.heap a n }

section Mem

variable [DecidableEq A] (m : QueueMem A E) {a b : A} (n : Option (Node A E))

theorem next_withNode_ne (h : b ≠ a) : (withNode m a n).next b = m.next b := by
  simp [QueueMem.next, withNode, h]

theorem next_withNode_self : (withNode m a n).next a = n.bind Node.next_ := by
  simp [QueueMem.next, withNode]

theorem elementAt_withNode_ne {o : Option A} (h : o ≠ some a) :
    (withNode m a n).elementAt o = m.elementAt o := by
  cases o with
  | none => rfl
  | some b =>
    have hb : b ≠ a := fun hb => h (by rw [hb])
    simp [QueueMem.elementAt, withNode, hb]

end Mem

section Producer

variable [DecidableEq P] {s : LockFreeQueue P Unit A E}

/-! ### Allocation -/

section Alloc

omit [DecidableEq P]

variable {n : A} (hfree : s.mem.heap n = none)

include hfree

theorem Ownership.chain_ne_of_free (h : Ownership s) : ∀ c ∈ s.chain, c.node ≠ n := by
  rintro c hc rfl
  obtain ⟨nx, hnx⟩ := h.chain_live c hc
  simp [hfree] at hnx

theorem Ownership.hand_ne_of_free (h : Ownership s) : (s.pop ()).hand ≠ some n := by
  intro hn
  obtain ⟨nd, hnd⟩ := h.hand_live n hn
  simp [hfree] at hnd

theorem Ownership.own_ne_of_free (h : Ownership s) (q : P) : (s.push q).own ≠ some n := by
  intro hq
  obtain ⟨y, hy⟩ := h.own_live q n hq
  simp [hfree] at hy

end Alloc

/-- The node belongs to the producer that has allocated it. -/
theorem Ownership.callPush [DecidableEq A] (h : Ownership s) {p : P} {x : E} {n : A}
    (hfree : s.mem.heap n = none) :
    Ownership { s with
      mem := withNode s.mem n (some ⟨none, x⟩)
      push := update s.push p (.loadTail n)
      calls := update s.calls p (s.calls p ++ [x]) } := by
  have hchain := h.chain_ne_of_free hfree
  have hhand := h.hand_ne_of_free hfree
  have howned := h.own_ne_of_free hfree
  constructor
  · intro q m hq
    rw [own_update] at hq
    split_ifs at hq with hqp
    · obtain rfl : n = m := by simpa [PushPc.own] using hq
      exact ⟨x, by simp [withNode]⟩
    · obtain ⟨y, hy⟩ := h.own_live q m hq
      have hm : m ≠ n := fun hm => howned q (hm ▸ hq)
      exact ⟨y, by simp [withNode, hm, hy]⟩
  · intro q r m hq hr
    rw [own_update] at hq hr
    split_ifs at hq hr with hqp hrp hrp
    · rw [hqp, hrp]
    · obtain rfl : n = m := by simpa [PushPc.own] using hq
      exact absurd hr (howned r)
    · obtain rfl : n = m := by simpa [PushPc.own] using hr
      exact absurd hq (howned q)
    · exact h.own_unique q r m hq hr
  · intro q m hq c hc
    rw [own_update] at hq
    split_ifs at hq with hqp
    · obtain rfl : n = m := by simpa [PushPc.own] using hq
      exact hchain c hc
    · exact h.own_chain q m hq c hc
  · intro c hc
    obtain ⟨nx, hnx⟩ := h.chain_live c hc
    exact ⟨nx, by simp [withNode, hchain c hc, hnx]⟩
  · exact h.chain_nodup
  · intro m hm
    obtain ⟨nd, hnd⟩ := h.hand_live m hm
    have hne : m ≠ n := fun hmn => hhand (hmn ▸ hm)
    exact ⟨nd, by simp [withNode, hne, hnd]⟩
  · intro m hm q
    rw [own_update]
    split_ifs with hqp
    · intro hq
      exact hhand (hm.trans hq.symm)
    · exact h.hand_own m hm q
  · exact h.hand_chain

/-- The chain does not notice a node that nobody has linked in. -/
theorem Shape.callPush [DecidableEq A] (h : Shape s) (ho : Ownership s) {p : P} {x : E} {n : A}
    (hpc : s.push p = .idle) (hfree : s.mem.heap n = none) :
    Shape { s with
      mem := withNode s.mem n (some ⟨none, x⟩)
      push := update s.push p (.loadTail n)
      calls := update s.calls p (s.calls p ++ [x]) } := by
  have hnext : ∀ c ∈ s.chain, (withNode s.mem n (some ⟨none, x⟩)).next c.node
      = s.mem.next c.node :=
    fun c hc => next_withNode_ne _ _ (ho.chain_ne_of_free hfree c hc)
  constructor
  · exact h.head_cons
  · exact h.head_nil
  · exact h.tail_some
  · intro ht
    rcases h.tail_none ht with hnil | ⟨c, hc, hst⟩
    · exact Or.inl hnil
    · refine Or.inr ⟨c, hc, ?_⟩
      have hcp : c.producer ≠ p := by
        rintro rfl
        simp [hpc] at hst
      simpa [hcp] using hst
  · intro q m hq
    exact h.storeTail q m (push_of_update (by simp) hq).2
  · exact h.storeHead
  · intro c d hcd
    rw [hnext c hcd.left_mem]
    refine (h.links c d hcd).imp_right fun ⟨hnone, hst⟩ => ⟨hnone, ?_⟩
    have hdp : d.producer ≠ p := by
      rintro rfl
      simp [hpc] at hst
    simpa [hdp] using hst
  · intro c hc
    rw [hnext c (List.mem_of_getLast? hc)]
    exact h.last c hc
  · intro q m t hq
    obtain ⟨hnone, c, d, hcd, rfl, hd⟩ := h.storeNext q m t (push_of_update (by simp) hq).2
    exact ⟨by rw [hnext c hcd.left_mem, hnone], c, d, hcd, rfl, hd⟩
  · refine h.reads_of_le rfl rfl id fun a m ha hm => ?_
    have han : a ≠ n := by
      rintro rfl
      simp [QueueMem.next, hfree] at hm
    rw [next_withNode_ne _ _ han, hm]

/-- `new Node` takes an address that is not in use. -/
theorem Inv.callPush [DecidableEq A] (h : Inv s) {p : P} {x : E} {n : A} (hpc : s.push p = .idle)
    (hfree : s.mem.heap n = none) :
    Inv { s with
      mem := withNode s.mem n (some ⟨none, x⟩)
      push := update s.push p (.loadTail n)
      calls := update s.calls p (s.calls p ++ [x]) } := by
  obtain ⟨ho, hs, hh, hf⟩ := h
  refine ⟨ho.callPush hfree, hs.callPush ho hpc hfree, ?_, hf⟩
  constructor
  · exact hh.pushed
  · intro q
    rw [own_update]
    by_cases hqp : q = p
    · subst hqp
      have hcalls := hh.calls q
      simp only [hpc, PushPc.own, QueueMem.elementAt] at hcalls
      simp [hcalls, PushPc.own, QueueMem.elementAt, withNode]
    · simp only [hqp, if_false]
      rw [elementAt_withNode_ne _ _ (ho.own_ne_of_free hfree q)]
      simpa [hqp] using hh.calls q
  · intro q
    have hdone := hh.done q
    rw [linked_update]
    split_ifs with hqp
    · subst hqp
      simpa [hpc, PushPc.linked] using hdone
    · exact hdone
  · simp only
    rw [elementAt_withNode_ne _ _ (ho.hand_ne_of_free hfree)]
    exact hh.returned

/-! ### Frames -/

omit [DecidableEq P] in
/-- Ownership speaks about nodes, and not about `head_`, `tail_` or where the threads stand. -/
theorem Ownership.congr {s' : LockFreeQueue P Unit A E} (h : Ownership s)
    (hpush : ∀ p, (s'.push p).own = (s.push p).own) (hheap : s'.mem.heap = s.mem.heap)
    (hchain : s'.chain = s.chain) (hhand : (s'.pop ()).hand = (s.pop ()).hand) :
    Ownership s' := by
  obtain ⟨h1, h2, h3, h4, h5, h6, h7, h8⟩ := h
  constructor <;> simpa only [hpush, hheap, hchain, hhand]

/-- A producer that moves on without linking its node in. -/
theorem Inv.movePush (h : Inv s) {p : P} (pc : PushPc A) (hown : pc.own = (s.push p).own)
    (hlinked : (s.push p).linked = false) (hlinked' : pc.linked = false) :
    Inv { s with push := update s.push p pc } := by
  obtain ⟨ho, hs, hh, hf⟩ := h
  have hkeep : ∀ q, (update s.push p pc q).own = (s.push q).own := by
    intro q
    rw [own_update]
    split_ifs with hqp
    · rw [hown, hqp]
    · rfl
  have hkeepLinked : ∀ q, (update s.push p pc q).linked = (s.push q).linked := by
    intro q
    rw [linked_update]
    split_ifs with hqp
    · rw [hlinked', hqp, hlinked]
    · rfl
  have hback : ∀ q pc', pc'.linked = true → (update s.push p pc q = pc' ↔ s.push q = pc') := by
    intro q pc' hpc'
    by_cases hqp : q = p
    · subst hqp
      rw [update_self]
      constructor
      · rintro rfl
        simp [hlinked'] at hpc'
      · rintro rfl
        simp [hlinked] at hpc'
    · rw [update_of_ne hqp]
  refine ⟨ho.congr hkeep rfl rfl rfl, ?_, ?_, hf⟩
  · obtain ⟨h1, h2, h3, h4, h5, h6, h7, h8, h9, h10⟩ := hs
    constructor <;> simp only [hback _ (.storeTail _) rfl, hback _ (.storeNext _ _) rfl] <;>
      assumption
  · obtain ⟨h1, h2, h3, h4⟩ := hh
    constructor <;> simp only [hkeep, hkeepLinked] <;> assumption

/-- `Push` returns after `on_empty`. -/
theorem Inv.returnPush (h : Inv s) {p : P} (hpc : s.push p = .onEmpty) :
    Inv { s with
      push := update s.push p .idle
      done := update s.done p (s.done p + 1) } := by
  obtain ⟨ho, hs, hh, hf⟩ := h
  have hkeep : ∀ q, (update s.push p .idle q).own = (s.push q).own := by
    intro q
    rw [own_update]
    split_ifs with hqp
    · rw [hqp, hpc]
      rfl
    · rfl
  have hback : ∀ q pc, pc ≠ .idle → pc ≠ .onEmpty →
      (update s.push p .idle q = pc ↔ s.push q = pc) := by
    intro q pc hidle hempty
    by_cases hqp : q = p
    · subst hqp
      rw [update_self, hpc]
      exact ⟨fun h => absurd h.symm hidle, fun h => absurd h.symm hempty⟩
    · rw [update_of_ne hqp]
  refine ⟨ho.congr hkeep rfl rfl rfl, ?_, ?_, hf⟩
  · obtain ⟨h1, h2, h3, h4, h5, h6, h7, h8, h9, h10⟩ := hs
    constructor <;>
      simp only [hback _ (.storeTail _) (by simp) (by simp),
        hback _ (.storeNext _ _) (by simp) (by simp)] <;>
      assumption
  · obtain ⟨h1, h2, h3, h4⟩ := hh
    refine ⟨h1, ?_, ?_, h4⟩
    · simpa only [hkeep] using h2
    · intro q
      have hdone := h3 q
      by_cases hqp : q = p
      · subst hqp
        simpa [hpc, PushPc.linked] using hdone
      · simpa [hqp] using hdone

/-! ### Linking -/

/-- The node goes from its producer to the chain. -/
theorem Ownership.link (h : Ownership s) {p : P} {n : A} {x : E} {pc : PushPc A}
    {m : QueueMem A E} {pushed : List (P × E)} (hown : (s.push p).own = some n)
    (hn : s.mem.heap n = some ⟨none, x⟩) (hpc : pc.own = none) (hm : m.heap = s.mem.heap) :
    Ownership { s with
      mem := m
      push := update s.push p pc
      pushed := pushed
      chain := s.chain ++ [⟨n, p, x⟩] } := by
  constructor
  · intro q a hq
    rw [hm]
    exact h.own_live q a (own_of_update hpc hq).2
  · intro q r a hq hr
    exact h.own_unique q r a (own_of_update hpc hq).2 (own_of_update hpc hr).2
  · intro q a hq c hc
    obtain ⟨hqp, hq⟩ := own_of_update hpc hq
    rcases List.mem_append.mp hc with hc | hc
    · exact h.own_chain q a hq c hc
    · obtain rfl := List.mem_singleton.mp hc
      rintro rfl
      exact hqp (h.own_unique q p _ hq hown)
  · intro c hc
    simp only [hm]
    rcases List.mem_append.mp hc with hc | hc
    · exact h.chain_live c hc
    · obtain rfl := List.mem_singleton.mp hc
      exact ⟨none, hn⟩
  · simp only [List.map_append, List.map_cons, List.map_nil]
    refine List.nodup_append.mpr ⟨h.chain_nodup, List.nodup_singleton _, ?_⟩
    rintro a ha b hb rfl
    obtain ⟨c, hc, rfl⟩ := List.mem_map.mp ha
    exact h.own_chain p n hown c hc (List.mem_singleton.mp hb)
  · intro a ha
    rw [hm]
    exact h.hand_live a ha
  · intro a ha q hq
    exact h.hand_own a ha q (own_of_update hpc hq).2
  · intro a ha c hc
    rcases List.mem_append.mp hc with hc | hc
    · exact h.hand_chain a ha c hc
    · obtain rfl := List.mem_singleton.mp hc
      rintro rfl
      exact h.hand_own _ ha p hown

/-- The push counts from its successful compare-exchange on. -/
theorem History.link (h : History s) {p : P} {n : A} {x : E} {pc : PushPc A}
    {m : QueueMem A E} (hown : (s.push p).own = some n) (hlinked : (s.push p).linked = false)
    (hn : s.mem.heap n = some ⟨none, x⟩) (hpc : pc.own = none) (hpc' : pc.linked = true)
    (hm : m.heap = s.mem.heap) :
    History { s with
      mem := m
      push := update s.push p pc
      pushed := s.pushed ++ [(p, x)]
      chain := s.chain ++ [⟨n, p, x⟩] } := by
  have helem : ∀ a, m.elementAt a = s.mem.elementAt a := by
    intro a
    rw [QueueMem.elementAt, hm, QueueMem.elementAt]
  refine ⟨?_, ?_, ?_, ?_⟩
  · simp [h.pushed]
  · intro q
    have hcalls := h.calls q
    rw [own_update, helem]
    by_cases hqp : q = p
    · subst hqp
      rw [hown] at hcalls
      simpa [hpc, QueueMem.elementAt, hn] using hcalls
    · simpa [hqp, ofProducer_ne (Ne.symm hqp)] using hcalls
  · intro q
    have hdone := h.done q
    rw [linked_update]
    by_cases hqp : q = p
    · subst hqp
      rw [hlinked] at hdone
      simpa [hpc'] using hdone
    · simpa [hqp, ofProducer_ne (Ne.symm hqp)] using hdone
  · simp only [helem]
    exact h.returned

/-- The compare-exchange on `head_` succeeds: the chain was empty. -/
theorem Inv.linkHead (h : Inv s) {p : P} {n : A} {x : E} (hpc : s.push p = .casHead n)
    (hn : s.mem.heap n = some ⟨none, x⟩) (hhead : s.mem.head_ = none) :
    Inv { s with
      mem := { s.mem with head_ := some n }
      push := update s.push p (.storeTail n)
      pushed := s.pushed ++ [(p, x)]
      chain := s.chain ++ [⟨n, p, x⟩] } := by
  obtain ⟨ho, hs, hh, hf⟩ := h
  have hown : (s.push p).own = some n := by rw [hpc]; rfl
  have hlinked : (s.push p).linked = false := by rw [hpc]; rfl
  have hnil := hs.chain_eq_nil hhead
  have htail := hs.tail_eq_none hnil
  -- nobody is in the middle of an update of the empty chain
  have hpop : ∀ a, s.pop () ≠ .storeHead a := by
    intro a ha
    have := (hs.head_nil hnil a).mpr ha
    simp [hhead] at this
  have hother : ∀ q a, s.push q ≠ .storeTail a := by
    intro q a hq
    obtain ⟨-, y, hy⟩ := hs.storeTail q a hq
    simp [hnil] at hy
  have hnext : ∀ q a t, s.push q ≠ .storeNext a t := by
    intro q a t hq
    obtain ⟨-, c, d, hcd, -⟩ := hs.storeNext q a t hq
    simp [hnil] at hcd
  refine ⟨ho.link hown hn rfl rfl, ?_, hh.link hown hlinked hn rfl rfl rfl, hf⟩
  simp only [hnil, List.nil_append]
  constructor
  · intro c hc
    obtain rfl : _ = c := by simpa using hc
    rfl
  · simp
  · intro t ht
    simp [htail] at ht
  · intro _
    exact Or.inr ⟨_, rfl, by simp⟩
  · intro q a hq
    by_cases hqp : q = p
    · subst hqp
      obtain rfl : n = a := by simpa using hq
      exact ⟨htail, x, rfl⟩
    · exact absurd (by simpa [hqp] using hq) (hother q a)
  · intro a ha
    exact absurd ha (hpop a)
  · intro c d hcd
    simp at hcd
  · intro c hc
    obtain rfl : _ = c := by simpa using hc
    simp [QueueMem.next, hn]
  · intro q a t hq
    exact absurd (push_of_update (by simp) hq).2 (hnext q a t)
  · have hreads := hs.reads
    show Reads _ (s.pop ())
    cases hp : s.pop () <;> rw [hp] at hreads <;> simp_all [Reads]

/-- The producer of the only node stores `tail_`. -/
theorem Inv.storeTail (h : Inv s) {p : P} {n : A} (hpc : s.push p = .storeTail n) :
    Inv { s with
      mem := { s.mem with tail_ := some n }
      push := update s.push p .onEmpty } := by
  obtain ⟨ho, hs, hh, hf⟩ := h
  obtain ⟨htail, x, hchain⟩ := hs.storeTail p n hpc
  have hkeep : ∀ q, (update s.push p .onEmpty q).own = (s.push q).own := by
    intro q
    rw [own_update]
    split_ifs with hqp
    · rw [hqp, hpc]
      rfl
    · rfl
  have hkeepLinked : ∀ q, (update s.push p .onEmpty q).linked = (s.push q).linked := by
    intro q
    rw [linked_update]
    split_ifs with hqp
    · rw [hqp, hpc]
      rfl
    · rfl
  refine ⟨ho.congr hkeep rfl rfl rfl, ?_, ?_, hf⟩
  · constructor
    · exact hs.head_cons
    · intro hnil
      simp [hchain] at hnil
    · intro t ht
      obtain rfl : n = t := by simpa using ht
      exact ⟨_, by simp [hchain]; rfl, rfl⟩
    · simp
    · intro q a hq
      obtain ⟨hqp, hq⟩ := push_of_update (by simp) hq
      obtain ⟨-, y, hy⟩ := hs.storeTail q a hq
      simp only [hchain, List.cons.injEq, and_true, Linked.mk.injEq] at hy
      exact absurd hy.2.1.symm hqp
    · exact hs.storeHead
    · intro c d hcd
      simp [hchain] at hcd
    · exact hs.last
    · intro q a t hq
      obtain ⟨-, c, d, hcd, -⟩ := hs.storeNext q a t (push_of_update (by simp) hq).2
      simp [hchain] at hcd
    · exact hs.reads_of_le rfl rfl (by simp) fun a m _ hm => hm
  · obtain ⟨h1, h2, h3, h4⟩ := hh
    constructor <;> simp only [hkeep, hkeepLinked] <;> assumption

/-- The compare-exchange on `tail_` succeeds: the node follows the last one, whose `next_` is still
null. -/
theorem Inv.linkTail (h : Inv s) {p : P} {n t : A} {x : E} (hpc : s.push p = .casTail n t)
    (hn : s.mem.heap n = some ⟨none, x⟩) (ht : s.mem.tail_ = some t) :
    Inv { s with
      mem := { s.mem with tail_ := some n }
      push := update s.push p (.storeNext n t)
      pushed := s.pushed ++ [(p, x)]
      chain := s.chain ++ [⟨n, p, x⟩] } := by
  obtain ⟨ho, hs, hh, hf⟩ := h
  have hown : (s.push p).own = some n := by rw [hpc]; rfl
  have hlinked : (s.push p).linked = false := by rw [hpc]; rfl
  obtain ⟨c₀, hc₀, rfl⟩ := hs.tail_some t ht
  have hne : s.chain ≠ [] := by
    intro hnil
    simp [hnil] at hc₀
  have htail : s.mem.tail_ ≠ none := by simp [ht]
  refine ⟨ho.link hown hn rfl rfl, ?_, hh.link hown hlinked hn rfl rfl rfl, hf⟩
  constructor
  · intro c hc
    apply hs.head_cons c
    simpa only [List.head?_append_of_ne_nil _ hne] using hc
  · intro hnil
    simp at hnil
  · intro a ha
    obtain rfl : n = a := by simpa using ha
    exact ⟨_, List.getLast?_concat, rfl⟩
  · intro hnone
    simp at hnone
  · intro q a hq
    exact absurd (push_of_update (by simp) hq).2 (hs.push_ne_storeTail htail q a)
  · intro a ha
    exact absurd (hs.storeHead a ha) hne
  · intro c d hcd
    rcases List.adjacent_concat_iff.mp hcd with ⟨hc, rfl⟩ | hcd
    · -- the new link is missing until the producer stores it
      obtain rfl : c₀ = c := Option.some.inj (hc₀.symm.trans hc)
      exact Or.inr ⟨hs.last _ hc, by simp⟩
    · refine (hs.links c d hcd).imp_right fun ⟨hnone, hst⟩ => ⟨hnone, ?_⟩
      have hdp : d.producer ≠ p := by
        rintro rfl
        simp [hpc] at hst
      simpa [hdp] using hst
  · intro c hc
    obtain rfl : _ = c := by simpa using hc
    simp [QueueMem.next, hn]
  · intro q a t hq
    by_cases hqp : q = p
    · subst hqp
      obtain ⟨rfl, rfl⟩ : n = a ∧ c₀.node = t := by simpa using hq
      exact ⟨hs.last _ hc₀, c₀, ⟨n, q, x⟩, List.adjacent_concat_iff.mpr (Or.inl ⟨hc₀, rfl⟩),
        rfl, rfl, rfl⟩
    · obtain ⟨hnone, c, d, hcd, hd⟩ := hs.storeNext q a t (by simpa [hqp] using hq)
      exact ⟨hnone, c, d, List.adjacent_concat_iff.mpr (Or.inr hcd), hd⟩
  · exact hs.reads_of_le rfl rfl (by simp) fun a m _ hm => hm

omit [DecidableEq P] in
/-- Two linked nodes at one address are the same. -/
theorem Ownership.node_inj (h : Ownership s) {c d : Linked P A E} (hc : c ∈ s.chain)
    (hd : d ∈ s.chain) (hcd : c.node = d.node) : c = d :=
  List.inj_on_of_nodup_map h.chain_nodup hc hd hcd

omit [DecidableEq P] in
/-- A linked node belongs to no producer and is not in the consumer's hand. -/
theorem Ownership.not_owned (h : Ownership s) {c : Linked P A E} (hc : c ∈ s.chain) :
    (∀ q, (s.push q).own ≠ some c.node) ∧ (s.pop ()).hand ≠ some c.node :=
  ⟨fun q hq => h.own_chain q _ hq c hc rfl, fun hq => h.hand_chain _ hq c hc rfl⟩

/-- The owners of the nodes after the `next_` of a linked one has been written. -/
theorem Ownership.storeNext [DecidableEq A] (h : Ownership s) {p : P} {c₀ : Linked P A E}
    {nd : Node A E} {next : Option A} {done : P → Nat} (hmem₀ : c₀ ∈ s.chain)
    (ht : s.mem.heap c₀.node = some nd) :
    Ownership { s with
      mem := withNode s.mem c₀.node (some { nd with next_ := next })
      push := update s.push p .idle
      done := done } := by
  obtain ⟨howned, hhand⟩ := h.not_owned hmem₀
  constructor
  · intro q a hq
    obtain ⟨-, hq⟩ := own_of_update rfl hq
    have ha : a ≠ c₀.node := fun ha => howned q (ha ▸ hq)
    simpa [withNode, ha] using h.own_live q a hq
  · intro q r a hq hr
    exact h.own_unique q r a (own_of_update rfl hq).2 (own_of_update rfl hr).2
  · intro q a hq
    exact h.own_chain q a (own_of_update rfl hq).2
  · intro c hc
    by_cases hcn : c.node = c₀.node
    · obtain rfl := h.node_inj hc hmem₀ hcn
      obtain ⟨next, hnext⟩ := h.chain_live c hc
      obtain rfl : nd = _ := Option.some.inj (ht.symm.trans hnext)
      simp [withNode]
    · simpa [withNode, hcn] using h.chain_live c hc
  · exact h.chain_nodup
  · intro a ha
    have hne : a ≠ c₀.node := fun hac => hhand (hac ▸ ha)
    simpa [withNode, hne] using h.hand_live a ha
  · intro a ha q hq
    exact h.hand_own a ha q (own_of_update rfl hq).2
  · exact h.hand_chain

/-- The missing link between two neighbours is there now; all others are as before. -/
theorem Shape.linkNext [DecidableEq A] (h : Shape s) (ho : Ownership s) {nd : Node A E}
    {c₀ d₀ : Linked P A E} {done : P → Nat} (hcd₀ : s.chain.Adjacent c₀ d₀)
    (hpc : s.push d₀.producer = .storeNext d₀.node c₀.node) (hnone : s.mem.next c₀.node = none) :
    Shape { s with
      mem := withNode s.mem c₀.node (some { nd with next_ := some d₀.node })
      push := update s.push d₀.producer .idle
      done := done } := by
  have hnodup : s.chain.Nodup := ho.chain_nodup.of_map _
  have hmem₀ := hcd₀.left_mem
  constructor
  · exact h.head_cons
  · exact h.head_nil
  · exact h.tail_some
  · intro htail
    rcases h.tail_none htail with hnil | ⟨c, hc, -⟩
    · exact Or.inl hnil
    · simp [hc] at hcd₀
  · intro q a hq
    exact h.storeTail q a (push_of_update (by simp) hq).2
  · exact h.storeHead
  · intro c d hcd
    by_cases hcn : c.node = c₀.node
    · obtain rfl := ho.node_inj hcd.left_mem hmem₀ hcn
      obtain rfl := hcd.right_unique hnodup hcd₀
      exact Or.inl (next_withNode_self _ _)
    · rw [next_withNode_ne _ _ hcn]
      refine (h.links c d hcd).imp_right fun ⟨hnone', hst⟩ => ⟨hnone', ?_⟩
      have hdp : d.producer ≠ d₀.producer := by
        intro hdp
        rw [hdp, hpc] at hst
        exact hcn (PushPc.storeNext.inj hst).2.symm
      simpa [hdp] using hst
  · intro c hc
    have hcn : c.node ≠ c₀.node := by
      intro hcn
      obtain rfl := ho.node_inj (List.mem_of_getLast? hc) hmem₀ hcn
      exact hcd₀.ne_last hnodup hc
    rw [next_withNode_ne _ _ hcn]
    exact h.last c hc
  · intro q a t hq
    -- the missing link of another producer stands before another node
    obtain ⟨hqp, hq⟩ := push_of_update (by simp) hq
    obtain ⟨hnone', c, d, hcd, rfl, hd, rfl⟩ := h.storeNext q a t hq
    have hcn : c.node ≠ c₀.node := by
      intro hcn
      obtain rfl := ho.node_inj hcd.left_mem hmem₀ hcn
      obtain rfl := hcd.right_unique hnodup hcd₀
      exact hqp rfl
    exact ⟨by rw [next_withNode_ne _ _ hcn, hnone'], c, d, hcd, rfl, hd, rfl⟩
  · refine h.reads_of_le rfl rfl id fun a m _ hm => ?_
    have ha : a ≠ c₀.node := by
      rintro rfl
      simp [hnone] at hm
    rw [next_withNode_ne _ _ ha, hm]

/-- The producer writes the `next_` of the node before its own, and returns. -/
theorem Inv.storeNext [DecidableEq A] (h : Inv s) {p : P} {n t : A} {nd : Node A E}
    (hpc : s.push p = .storeNext n t) (ht : s.mem.heap t = some nd) :
    Inv { s with
      mem := withNode s.mem t (some { nd with next_ := some n })
      push := update s.push p .idle
      done := update s.done p (s.done p + 1) } := by
  obtain ⟨ho, hs, hh, hf⟩ := h
  obtain ⟨hnone, c₀, d₀, hcd₀, rfl, rfl, rfl⟩ := hs.storeNext p n t hpc
  obtain ⟨howned, hhand⟩ := ho.not_owned hcd₀.left_mem
  refine ⟨ho.storeNext hcd₀.left_mem ht, hs.linkNext ho hcd₀ hpc hnone, ?_, hf⟩
  constructor
  · exact hh.pushed
  · intro q
    have hcalls := hh.calls q
    rw [own_update]
    split_ifs with hqp
    · subst hqp
      rw [hpc] at hcalls
      exact hcalls
    · rw [elementAt_withNode_ne _ _ (howned q)]
      exact hcalls
  · intro q
    have hdone := hh.done q
    rw [linked_update]
    by_cases hqp : q = d₀.producer
    · subst hqp
      simpa [hpc, PushPc.linked] using hdone
    · simpa [hqp] using hdone
  · simp only
    rw [elementAt_withNode_ne _ _ hhand]
    exact hh.returned

end Producer

/-! ### Steps of the consumer -/

section Consumer

variable [DecidableEq P] {s : LockFreeQueue P Unit A E}

/-- The consumer moves on without touching the memory. -/
theorem Inv.movePop (h : Inv s) (pc : PopPc A) (hpc : ∀ a, s.pop () ≠ .storeHead a)
    (hpc' : ∀ a, pc ≠ .storeHead a) (hhand : pc.hand = (s.pop ()).hand) (hreads : s.Reads pc) :
    Inv { s with pop := update s.pop () pc } := by
  obtain ⟨ho, hs, hh, hf⟩ := h
  refine ⟨ho.congr (fun _ => rfl) rfl rfl ?_, ?_, ?_, hf⟩
  · simp only [update_self, hhand]
  · obtain ⟨h1, h2, h3, h4, h5, h6, h7, h8, h9, h10⟩ := hs
    refine ⟨h1, ?_, h3, h4, h5, ?_, h7, h8, h9, ?_⟩
    · intro hnil a
      simpa [hpc, hpc'] using h2 hnil a
    · intro a ha
      exact absurd (by simpa using ha) (hpc' a)
    · simp only [update_self]
      exact hreads
  · obtain ⟨h1, h2, h3, h4⟩ := hh
    exact ⟨h1, h2, h3, by simpa [hhand] using h4⟩

omit [DecidableEq P] in
/-- The oldest node goes from the chain to the consumer. -/
theorem Ownership.unlink (h : Ownership s) {c : Linked P A E} {l : List (Linked P A E)}
    {pc : PopPc A} {m : QueueMem A E} {popped : List (P × E)} (hchain : s.chain = c :: l)
    (hpc : pc.hand = some c.node) (hm : m.heap = s.mem.heap) :
    Ownership { s with mem := m, pop := update s.pop () pc, popped := popped, chain := l } := by
  have hmem : ∀ d ∈ l, d ∈ s.chain := by
    intro d hd
    rw [hchain]
    exact List.mem_cons_of_mem _ hd
  have hc : c ∈ s.chain := by simp [hchain]
  have hhand : ∀ a, (update s.pop () pc ()).hand = some a → c.node = a := by
    intro a ha
    simpa [hpc] using ha
  have hnodup := h.chain_nodup
  rw [hchain, List.map_cons, List.nodup_cons] at hnodup
  constructor
  · simpa only [hm] using h.own_live
  · exact h.own_unique
  · intro q a hq d hd
    exact h.own_chain q a hq d (hmem d hd)
  · intro d hd
    simpa only [hm] using h.chain_live d (hmem d hd)
  · exact hnodup.2
  · intro a ha
    obtain rfl := hhand a ha
    obtain ⟨next, hnext⟩ := h.chain_live c hc
    exact ⟨_, by simpa only [hm] using hnext⟩
  · intro a ha q hq
    obtain rfl := hhand a ha
    exact h.own_chain q _ hq c hc rfl
  · intro a ha d hd hda
    obtain rfl := hhand a ha
    exact hnodup.1 (hda ▸ List.mem_map_of_mem hd)

/-- The pop counts from its successful compare-exchange on. -/
theorem History.unlink (h : History s) (ho : Ownership s) {c : Linked P A E}
    {l : List (Linked P A E)} {pc : PopPc A} {m : QueueMem A E} (hchain : s.chain = c :: l)
    (hhand : (s.pop ()).hand = none) (hpc : pc.hand = some c.node) (hm : m.heap = s.mem.heap) :
    History { s with
      mem := m
      pop := update s.pop () pc
      popped := s.popped ++ [(c.producer, c.element)]
      chain := l } := by
  have helem : ∀ a, m.elementAt a = s.mem.elementAt a := by
    intro a
    rw [QueueMem.elementAt, hm, QueueMem.elementAt]
  refine ⟨?_, ?_, h.done, ?_⟩
  · simp [h.pushed, hchain]
  · simpa only [helem] using h.calls
  · obtain ⟨next, hnext⟩ := ho.chain_live c (by simp [hchain])
    have hreturned := h.returned
    rw [hhand] at hreturned
    simp only [update_self, hpc, helem, List.map_append, hreturned]
    simp [QueueMem.elementAt, hnext]

/-- The compare-exchange on `tail_` succeeds: the node was the only one. -/
theorem Inv.unlinkTail (h : Inv s) {c : Linked P A E} {l : List (Linked P A E)} {a : A}
    (hpc : s.pop () = .casTail a) (ht : s.mem.tail_ = some a) (hchain : s.chain = c :: l) :
    Inv { s with
      mem := { s.mem with tail_ := none }
      pop := update s.pop () (.storeHead a)
      popped := s.popped ++ [(c.producer, c.element)]
      chain := l } := by
  obtain ⟨ho, hs, hh, hf⟩ := h
  have hreads := hs.reads
  rw [hpc] at hreads
  have hca : c.node = a := by
    have hhead := hs.head_cons c (by simp [hchain])
    exact Option.some.inj (hhead.symm.trans hreads.2)
  subst hca
  -- `head_` and `tail_` are one node
  have hnil : l = [] := by
    obtain ⟨d, hd, hda⟩ := hs.tail_some _ ht
    obtain rfl := ho.node_inj (List.mem_of_getLast? hd) (by simp [hchain]) hda
    have hnodup : s.chain.Nodup := ho.chain_nodup.of_map _
    rw [hchain] at hnodup hd
    cases l with
    | nil => rfl
    | cons e l =>
      rw [List.getLast?_cons_cons] at hd
      exact absurd (List.mem_of_getLast? hd) (List.nodup_cons.mp hnodup).1
  subst hnil
  have hhand : (s.pop ()).hand = none := by rw [hpc]; rfl
  refine ⟨ho.unlink hchain rfl rfl, ?_, hh.unlink ho hchain hhand rfl rfl, hf⟩
  constructor
  · simp
  · intro _ a
    simp only [update_self, hreads.2, Option.some.injEq, PopPc.storeHead.injEq]
  · simp
  · intro _
    exact Or.inl rfl
  · intro q b hq
    exact absurd hq (hs.push_ne_storeTail hreads.1 q b)
  · intro _ _
    rfl
  · intro b d hbd
    simp at hbd
  · simp
  · intro q b t hq
    obtain ⟨-, d, e, hde, -⟩ := hs.storeNext q b t hq
    simp [hchain] at hde
  · simp [Reads]

/-- The consumer of the only node clears `head_`. -/
theorem Inv.storeHead (h : Inv s) {a : A} (hpc : s.pop () = .storeHead a) :
    Inv { s with
      mem := { s.mem with head_ := none }
      pop := update s.pop () (.take a) } := by
  obtain ⟨ho, hs, hh, hf⟩ := h
  have hnil := hs.storeHead a hpc
  refine ⟨ho.congr (fun _ => rfl) rfl rfl ?_, ?_, ?_, hf⟩
  · simp only [update_self, hpc]
    rfl
  · obtain ⟨h1, h2, h3, h4, h5, h6, h7, h8, h9, h10⟩ := hs
    refine ⟨?_, ?_, h3, h4, h5, ?_, h7, h8, h9, ?_⟩
    · intro c hc
      simp [hnil] at hc
    · simp
    · simp
    · simp [Reads]
  · obtain ⟨h1, h2, h3, h4⟩ := hh
    refine ⟨h1, h2, h3, ?_⟩
    simp only [update_self]
    rw [hpc] at h4
    exact h4

/-- The compare-exchange on `head_` succeeds: the second node becomes the first. -/
theorem Inv.unlinkHead (h : Inv s) {c : Linked P A E} {l : List (Linked P A E)} {a n : A}
    (hpc : s.pop () = .casHead a n) (hchain : s.chain = c :: l) :
    Inv { s with
      mem := { s.mem with head_ := some n }
      pop := update s.pop () (.take a)
      popped := s.popped ++ [(c.producer, c.element)]
      chain := l } := by
  obtain ⟨ho, hs, hh, hf⟩ := h
  have hreads := hs.reads
  rw [hpc] at hreads
  obtain ⟨htail, hhead, hnext⟩ := hreads
  have hca : c.node = a := by
    have hhead' := hs.head_cons c (by simp [hchain])
    exact Option.some.inj (hhead'.symm.trans hhead)
  subst hca
  have hhand : (s.pop ()).hand = none := by rw [hpc]; rfl
  refine ⟨ho.unlink hchain rfl rfl, ?_, hh.unlink ho hchain hhand rfl rfl, hf⟩
  cases l with
  | nil => simp [hs.last c (by simp [hchain])] at hnext
  | cons d l =>
    have hcd : s.chain.Adjacent c d := by simp [hchain, List.adjacent_cons_iff]
    -- the link that has been read cannot have changed since
    have hnd : n = d.node := by
      rcases hs.links c d hcd with hlink | ⟨hnone, -⟩
      · exact Option.some.inj (hnext.symm.trans hlink)
      · simp [hnone] at hnext
    have hlast : s.chain.getLast? = (d :: l).getLast? := by rw [hchain, List.getLast?_cons_cons]
    constructor
    · intro e he
      obtain rfl : d = e := by simpa using he
      simp [hnd]
    · simp
    · intro t ht
      simpa only [hlast] using hs.tail_some t ht
    · intro hnone
      exact absurd hnone htail
    · intro q b hq
      exact absurd hq (hs.push_ne_storeTail htail q b)
    · simp
    · intro e f hef
      apply hs.links e f
      rw [hchain]
      exact List.adjacent_cons_iff.mpr (Or.inr hef)
    · intro e he
      exact hs.last e (hlast.trans he)
    · intro q b t hq
      obtain ⟨hnone, e, f, hef, rfl, hf⟩ := hs.storeNext q b t hq
      rw [hchain, List.adjacent_cons_iff] at hef
      rcases hef with ⟨rfl, -⟩ | hef
      · simp [hnone] at hnext
      · exact ⟨hnone, e, f, hef, rfl, hf⟩
    · simp [Reads]

/-- The consumer moves the element out, deletes the node and returns. -/
theorem Inv.take [DecidableEq A] (h : Inv s) {a : A} {nd : Node A E} (hpc : s.pop () = .take a)
    (ha : s.mem.heap a = some nd) :
    Inv { s with
      mem := withNode s.mem a none
      pop := update s.pop () .idle
      returned := s.returned ++ [nd.element_] } := by
  obtain ⟨ho, hs, hh, hf⟩ := h
  have hhand : (s.pop ()).hand = some a := by rw [hpc]; rfl
  have howned : ∀ q, (s.push q).own ≠ some a := ho.hand_own a hhand
  have hchain : ∀ c ∈ s.chain, c.node ≠ a := ho.hand_chain a hhand
  refine ⟨?_, ?_, ?_, hf⟩
  · constructor
    · intro q b hq
      have hba : b ≠ a := fun hba => howned q (hba ▸ hq)
      simpa [withNode, hba] using ho.own_live q b hq
    · exact ho.own_unique
    · exact ho.own_chain
    · intro c hc
      simpa [withNode, hchain c hc] using ho.chain_live c hc
    · exact ho.chain_nodup
    · simp [PopPc.hand]
    · simp [PopPc.hand]
    · simp [PopPc.hand]
  · have hnext : ∀ c ∈ s.chain, (withNode s.mem a none).next c.node = s.mem.next c.node :=
      fun c hc => next_withNode_ne _ _ (hchain c hc)
    constructor
    · exact hs.head_cons
    · intro hnil b
      simpa [withNode, hpc] using hs.head_nil hnil b
    · exact hs.tail_some
    · exact hs.tail_none
    · exact hs.storeTail
    · simp
    · intro c d hcd
      rw [hnext c hcd.left_mem]
      exact hs.links c d hcd
    · intro c hc
      rw [hnext c (List.mem_of_getLast? hc)]
      exact hs.last c hc
    · intro q b t hq
      obtain ⟨hnone, c, d, hcd, rfl, hd⟩ := hs.storeNext q b t hq
      exact ⟨by rw [hnext c hcd.left_mem, hnone], c, d, hcd, rfl, hd⟩
    · simp [Reads]
  · constructor
    · exact hh.pushed
    · intro q
      rw [elementAt_withNode_ne _ _ (howned q)]
      exact hh.calls q
    · exact hh.done
    · have hreturned := hh.returned
      rw [hhand] at hreturned
      simpa [QueueMem.elementAt, ha, PopPc.hand] using hreturned

end Consumer

/-! ### Every step keeps the invariant -/

section Steps

variable [DecidableEq P] [DecidableEq A] {s : LockFreeQueue P Unit A E}

theorem Inv.pushStep (h : Inv s) {p : P} (hp : s.push p ≠ .idle) : Inv (s.pushStep p) := by
  unfold LockFreeQueue.pushStep
  cases hpc : s.push p with
  | idle => exact absurd hpc hp
  | loadTail n =>
    have hown : (s.push p).own = some n := by rw [hpc]; rfl
    have hlinked : (s.push p).linked = false := by rw [hpc]; rfl
    cases ht : s.mem.tail_ with
    | none =>
      simpa [QueueMem.pushStep, ht, link] using
        h.movePush (.casHead n) hown.symm hlinked rfl
    | some t =>
      simpa [QueueMem.pushStep, ht, link] using
        h.movePush (.casTail n t) hown.symm hlinked rfl
  | casHead n =>
    have hown : (s.push p).own = some n := by rw [hpc]; rfl
    have hlinked : (s.push p).linked = false := by rw [hpc]; rfl
    obtain ⟨x, hx⟩ := h.owner.own_live p n hown
    by_cases hhead : s.mem.head_ = none
    · simpa [QueueMem.pushStep, hhead, link, hx] using h.linkHead hpc hx hhead
    · simpa [QueueMem.pushStep, hhead, link] using
        h.movePush (.loadTail n) hown.symm hlinked rfl
  | storeTail n => simpa [QueueMem.pushStep, link] using h.storeTail hpc
  | onEmpty => simpa [QueueMem.pushStep, link] using h.returnPush hpc
  | casTail n t =>
    have hown : (s.push p).own = some n := by rw [hpc]; rfl
    have hlinked : (s.push p).linked = false := by rw [hpc]; rfl
    obtain ⟨x, hx⟩ := h.owner.own_live p n hown
    by_cases ht : s.mem.tail_ = some t
    · simpa [QueueMem.pushStep, ht, link, hx] using h.linkTail hpc hx ht
    · simpa [QueueMem.pushStep, ht, link] using
        h.movePush (.loadTail n) hown.symm hlinked rfl
  | storeNext n t =>
    obtain ⟨-, c, d, hcd, rfl, -⟩ := h.shape.storeNext p n t hpc
    obtain ⟨next, hnext⟩ := h.owner.chain_live c hcd.left_mem
    simpa [QueueMem.pushStep, hnext, link, withNode] using h.storeNext hpc hnext

theorem Inv.popStep (h : Inv s) (hp : s.pop () ≠ .idle) : Inv (s.popStep ()) := by
  have hreads := h.shape.reads
  unfold LockFreeQueue.popStep
  cases hpc : s.pop () with
  | idle => exact absurd hpc hp
  | loadTail =>
    have hmove : ∀ pc : PopPc A, (∀ a, pc ≠ .storeHead a) → pc.hand = none → s.Reads pc →
        Inv { s with pop := update s.pop () pc } := by
      intro pc hpc' hhand
      exact h.movePop pc (by simp [hpc]) hpc' (by rw [hhand, hpc]; rfl)
    cases ht : s.mem.tail_ with
    | none => simpa [QueueMem.popStep, ht, unlink] using hmove .idle (by simp) rfl trivial
    | some t =>
      have hread : s.Reads (.loadHead t) := by simp [Reads, ht]
      simpa [QueueMem.popStep, ht, unlink] using hmove (.loadHead t) (by simp) rfl hread
  | loadHead t =>
    rw [hpc] at hreads
    by_cases hhead : s.mem.head_ = some t
    · simpa [QueueMem.popStep, hhead, unlink] using
        h.movePop (.casTail t) (by simp [hpc]) (by simp) (by rw [hpc]; rfl) ⟨hreads, hhead⟩
    · simpa [QueueMem.popStep, hhead, unlink] using
        h.movePop (.loadNext s.mem.head_) (by simp [hpc]) (by simp) (by rw [hpc]; rfl)
          ⟨hreads, rfl⟩
  | casTail a =>
    rw [hpc] at hreads
    by_cases ht : s.mem.tail_ = some a
    · obtain ⟨c, l, hchain, -⟩ := h.shape.exists_head hreads.1
      simpa [QueueMem.popStep, ht, unlink, hchain] using h.unlinkTail hpc ht hchain
    · simpa [QueueMem.popStep, ht, unlink] using
        h.movePop (.loadNext (some a)) (by simp [hpc]) (by simp) (by rw [hpc]; rfl) hreads
  | storeHead a => simpa [QueueMem.popStep, unlink] using h.storeHead hpc
  | loadNext o =>
    rw [hpc] at hreads
    obtain ⟨c, l, hchain, hhead⟩ := h.shape.exists_head hreads.1
    obtain rfl : o = some c.node := hreads.2.symm.trans hhead
    obtain ⟨next, hnode⟩ := h.owner.chain_live c (by simp [hchain])
    cases next with
    | none =>
      simpa [QueueMem.popStep, hnode, unlink] using
        h.movePop .loadTail (by simp [hpc]) (by simp) (by rw [hpc]; rfl) trivial
    | some n =>
      have hnext : s.mem.next c.node = some n := by simp [QueueMem.next, hnode]
      simpa [QueueMem.popStep, hnode, unlink] using
        h.movePop (.casHead c.node n) (by simp [hpc]) (by simp) (by rw [hpc]; rfl)
          ⟨hreads.1, hhead, hnext⟩
  | casHead a n =>
    rw [hpc] at hreads
    obtain ⟨c, l, hchain, -⟩ := h.shape.exists_head hreads.1
    simpa [QueueMem.popStep, hreads.2.1, unlink, hchain] using h.unlinkHead hpc hchain
  | take a =>
    obtain ⟨nd, hnd⟩ := h.owner.hand_live a (by rw [hpc]; rfl)
    simpa [QueueMem.popStep, hnd, unlink, withNode] using h.take hpc hnd

theorem inv_step {l : QueueLabel P Unit A E} {t : LockFreeQueue P Unit A E} (h : Inv s)
    (hstep : LockFreeQueue.step l s = some t) : Inv t := by
  cases l with
  | callPush p x n =>
    simp only [LockFreeQueue.step, Option.ite_none_right_eq_some, Option.some.injEq] at hstep
    obtain ⟨⟨hpc, hfree⟩, rfl⟩ := hstep
    exact h.callPush hpc (Option.isNone_iff_eq_none.mp hfree)
  | push p =>
    simp only [LockFreeQueue.step, Option.ite_none_left_eq_some, Option.some.injEq] at hstep
    obtain ⟨hp, rfl⟩ := hstep
    exact h.pushStep hp
  | callPop c =>
    simp only [LockFreeQueue.step, Option.ite_none_right_eq_some, Option.some.injEq] at hstep
    obtain ⟨hp, rfl⟩ := hstep
    exact h.movePop .loadTail (by simp [hp]) (by simp) (by rw [hp]; rfl) trivial
  | pop c =>
    simp only [LockFreeQueue.step, Option.ite_none_left_eq_some, Option.some.injEq] at hstep
    obtain ⟨hp, rfl⟩ := hstep
    exact h.popStep hp
  | empty c =>
    simp only [LockFreeQueue.step, Option.ite_none_right_eq_some, Option.some.injEq] at hstep
    obtain ⟨-, rfl⟩ := hstep
    exact h

/-! ### The queue is linearizable -/

/-- What the users of a queue with one consumer may rely on. -/
structure Linearizable (s : LockFreeQueue P Unit A E) : Prop where
  /-- Neither `nullptr` nor a deleted node has been dereferenced. -/
  no_fault : s.fault = false
  /-- `Pop` has returned the oldest pushes, in the order of their compare-exchanges. -/
  returned_prefix : s.returned <+: s.pushed.map Prod.snd
  /-- Each producer's pushes are its own calls, in call order. -/
  pushed_prefix : ∀ p, ofProducer p s.pushed <+: s.calls p
  /-- A call of `Push` that has returned is one of the pushes. -/
  done_pushed : ∀ p, (s.calls p).take (s.done p) <+: ofProducer p s.pushed
  /-- When `Pop` returns `nullptr`, every call of `Push` that has returned has been popped, and all
  that was popped has been returned. -/
  null_complete : ∀ m pc, s.mem.popStep (s.pop ()) = some (m, pc, some none) →
    s.popped.map Prod.snd = s.returned ∧
      ∀ p, (s.calls p).take (s.done p) <+: ofProducer p s.popped
  /-- When `Empty` returns `true`, `tail_` is null as well. -/
  tail_of_empty : s.mem.empty = true → s.mem.tail_ = none

/-- Only the load of a null `tail_` makes `Pop` return `nullptr`. -/
theorem popStep_null {m m' : QueueMem A E} {pc pc' : PopPc A}
    (h : m.popStep pc = some (m', pc', some none)) : pc = .loadTail ∧ m.tail_ = none := by
  cases pc with
  | loadTail =>
    cases ht : m.tail_ with
    | none => exact ⟨rfl, rfl⟩
    | some t => simp [QueueMem.popStep, ht] at h
  | idle => simp [QueueMem.popStep] at h
  | loadHead t =>
    simp only [QueueMem.popStep] at h
    split_ifs at h <;> simp at h
  | casTail a =>
    simp only [QueueMem.popStep] at h
    split_ifs at h <;> simp at h
  | storeHead a => simp [QueueMem.popStep] at h
  | loadNext o =>
    cases o with
    | none => simp [QueueMem.popStep] at h
    | some a =>
      cases hn : m.heap a with
      | none => simp [QueueMem.popStep, hn] at h
      | some n => cases hx : n.next_ <;> simp [QueueMem.popStep, hn, hx] at h
  | casHead a n =>
    simp only [QueueMem.popStep] at h
    split_ifs at h <;> simp at h
  | take a =>
    cases hn : m.heap a <;> simp [QueueMem.popStep, hn] at h

theorem Inv.linearizable (h : Inv s) : Linearizable s := by
  obtain ⟨ho, hs, hh, hf⟩ := h
  have hdone : ∀ p, (s.calls p).take (s.done p) <+: ofProducer p s.pushed := by
    intro p
    have hle : s.done p ≤ (ofProducer p s.pushed).length := by
      have := hh.done p
      omega
    rw [hh.calls p, List.take_append_of_le_length hle]
    exact List.take_prefix _ _
  refine ⟨hf, ?_, ?_, hdone, ?_, ?_⟩
  · rw [hh.pushed, List.map_append, hh.returned, List.append_assoc]
    exact List.prefix_append _ _
  · intro p
    rw [hh.calls p]
    exact List.prefix_append _ _
  · intro m pc hpop
    obtain ⟨hpc, htail⟩ := popStep_null hpop
    refine ⟨?_, fun p => ?_⟩
    · rw [hh.returned, hpc]
      simp [PopPc.hand, QueueMem.elementAt]
    · have hdone := hdone p
      rcases hs.tail_none htail with hnil | ⟨c, hc, hst⟩
      · rwa [hh.pushed, hnil, List.map_nil, List.append_nil] at hdone
      -- the only linked node belongs to a `Push` that has yet to store `tail_`
      · have hlen := hh.done p
        rw [hh.pushed, hc] at hdone hlen
        by_cases hp : c.producer = p
        · subst hp
          simp only [hst, PushPc.linked, List.map_cons, List.map_nil, ofProducer_append,
            ofProducer_self, List.length_append] at hlen hdone
          apply List.prefix_of_prefix_length_le hdone (List.prefix_append _ _)
          rw [List.length_take]
          simp at hlen
          omega
        · simpa [ofProducer_ne hp] using hdone
  · intro hempty
    exact hs.tail_eq_none (hs.chain_eq_nil (Option.isNone_iff_eq_none.mp hempty))

/-- **The queue is a linearizable FIFO**: however its producers and its one consumer are
interleaved, every state of the run is `Linearizable`. -/
theorem allStates_linearizable (P A E : Type*) [DecidableEq P] [DecidableEq A]
    (ls : List (QueueLabel P Unit A E)) :
    (lockFreeQueue P Unit A E).AllStates Linearizable ls start :=
  System.allStates_of_invariant (fun _ _ _ h ht => inv_step h ht) (fun _ h => h.linearizable) ls
    inv_start

end Steps

end LockFreeQueue

end Lizlib
